import Mathlib.Algebra.Order.Group.Unbundled.Int
import Mathlib.Tactic.Linarith
import Optima.Assignment.Matrix
import Optima.Proofs.Assignment.Hungarian.Steps

/-!
Growing a tree. Rows that hold columns keep potentials that leave no slack negative and no slack at
the columns they hold (`Dual`). In the tree of an entering row, columns that were reached lead back
to the root along edges without slack (`Growing`), and the label of any other column is its least
slack towards a row of the tree (`Labelled`). Raising the potentials of the tree by the least label
and looking from one more row preserve this, and with each round a column is reached, so that a
column without a row is found (`grow_ends`).
-/

namespace Optima.Assignment.Hungarian

variable {n : Nat} {c : Fin n → Fin n → Int} {low high : Int} {i : Fin n}
  {rowOf : Table n (Option (Fin n))} {base : Int} {p : Plan n} {reached : Table n Bool}
  {parent : Table n (Option (Fin n))} {length : Fin n → Int}

/-- All entries lie between two bounds, with zero. -/
structure Between (c : Fin n → Fin n → Int) (low high : Int) : Prop where
  low_nonpos : low ≤ 0
  high_nonneg : 0 ≤ high
  low_le : ∀ i j, low ≤ c i j
  le_high : ∀ i j, c i j ≤ high

/-- Potentials of a matching, whose edges have no slack. -/
structure Dual (c : Fin n → Fin n → Int) (rowOf : Table n (Option (Fin n))) (p : Plan n) :
    Prop where
  distinct : ∀ {j j' k}, rowOf.get j = some k → rowOf.get j' = some k → j = j'
  tight : ∀ {j k}, rowOf.get j = some k → p.slack c k j = 0
  feasible : ∀ {j k}, rowOf.get j = some k → ∀ j', 0 ≤ p.slack c k j'
  free : ∀ {j}, rowOf.get j = none → p.column j = 0
  column_nonpos : ∀ j, p.column j ≤ 0

/-- The row from which a column is seen: the one that holds the column before, or the root's. -/
def heldBy (i : Fin n) (rowOf : Table n (Option (Fin n))) : Option (Fin n) → Fin n
  | some j => (rowOf.get j).getD i
  | none => i

/-- The columns that were reached. -/
def columnsReached (reached : Table n Bool) : Finset (Fin n) :=
  Finset.univ.filter fun j => reached.get j = true

/-- A column leads back towards the root: it is tight to the row from which it was seen, and the
column before has a lower rank. -/
structure Leads (c : Fin n → Fin n → Int) (i : Fin n) (rowOf : Table n (Option (Fin n)))
    (p : Plan n) (reached : Table n Bool) (parent : Table n (Option (Fin n)))
    (rank : Fin n → Nat) (j : Fin n) : Prop where
  tight : p.slack c (heldBy i rowOf (parent.get j)) j = 0
  back : ∀ {k}, parent.get j = some k → reached.get k = true ∧ rank k < rank j

/-- The tree of the row `i` among the rows that hold columns. -/
structure Growing (c : Fin n → Fin n → Int) (low high : Int) (i : Fin n)
    (rowOf : Table n (Option (Fin n))) (base : Int) (p : Plan n) (reached : Table n Bool)
    (parent : Table n (Option (Fin n))) : Prop extends Dual c rowOf p where
  idle : ∀ j, rowOf.get j ≠ some i
  waiting : ∀ {k}, k ≠ i → (∀ j, rowOf.get j ≠ some k) → p.row k = 0
  held : ∀ {j}, reached.get j = true → ∃ k, rowOf.get j = some k
  entered : ∀ {j}, reached.get j = true → ∀ j', 0 ≤ p.slack c i j'
  low_le : low ≤ p.row i
  le_high : p.row i ≤ high
  root_eq : p.root + p.row i = base
  leads : ∃ rank : Fin n → Nat, ∀ j, reached.get j = true →
    rank j < (columnsReached reached).card ∧ Leads c i rowOf p reached parent rank j

/-- The labels of the columns that were not reached. -/
structure Labelled (c : Fin n → Fin n → Int) (i : Fin n) (rowOf : Table n (Option (Fin n)))
    (p : Plan n) (reached : Table n Bool) (parent : Table n (Option (Fin n)))
    (length : Fin n → Int) : Prop where
  least : ∀ {j}, reached.get j = false → ∀ {k}, InTree i rowOf reached k → length j ≤ p.slack c k j
  attained : ∀ {j}, reached.get j = false →
    length j = p.slack c (heldBy i rowOf (parent.get j)) j
  back : ∀ {j k}, reached.get j = false → parent.get j = some k → reached.get k = true

theorem Growing.apart (growing : Growing c low high i rowOf base p reached parent) :
    Apart i rowOf :=
  ⟨growing.distinct, growing.idle⟩

/-! ### Columns that are left -/

theorem mem_columnsReached {j : Fin n} : j ∈ columnsReached reached ↔ reached.get j = true := by
  simp [columnsReached]

theorem card_columnsReached_update {j : Fin n} (unreached : reached.get j = false) :
    (columnsReached (reached.update j true)).card = (columnsReached reached).card + 1 := by
  have grown : columnsReached (reached.update j true) = insert j (columnsReached reached) := by
    ext k
    rw [Finset.mem_insert, mem_columnsReached, mem_columnsReached, Table.get_update]
    by_cases same : j = k
    · simp [same]
    · simp [same, Ne.symm same]
  rw [grown, Finset.card_insert_of_notMem]
  rw [mem_columnsReached, unreached]
  exact Bool.false_ne_true

/-- A column that no row holds was not reached. -/
theorem Growing.unreached (growing : Growing c low high i rowOf base p reached parent) {j : Fin n}
    (free : rowOf.get j = none) : reached.get j = false := by
  by_contra known
  obtain ⟨k, holds⟩ := growing.held (Bool.not_eq_false _ ▸ known)
  rw [free] at holds
  cases holds

theorem Growing.card_lt (growing : Growing c low high i rowOf base p reached parent) :
    (columnsReached reached).card < n := by
  obtain ⟨j, free⟩ := growing.apart.exists_free
  have outside : j ∉ columnsReached reached := by
    rw [mem_columnsReached, growing.unreached free]
    exact Bool.false_ne_true
  have fewer := Finset.card_lt_univ_of_notMem outside
  rwa [Fintype.card_fin] at fewer

/-- The row from which a column was seen belongs to the tree. -/
theorem inTree_heldBy {source : Option (Fin n)}
    (known : ∀ {k}, source = some k → reached.get k = true) :
    InTree i rowOf reached (heldBy i rowOf source) := by
  cases source with
  | none => exact .inl rfl
  | some j =>
    cases holds : rowOf.get j with
    | none => exact .inl (by simp [heldBy, holds])
    | some k => exact .inr ⟨j, known rfl, by simp [heldBy, holds]⟩

/-! ### Bounds -/

section Bounds

variable (between : Between c low high)
  (growing : Growing c low high i rowOf base p reached parent)

include between growing

/-- Potentials of rows that hold columns, and of the row of the tree. -/
theorem Growing.row_bounds {k : Fin n} (known : k = i ∨ ∃ j, rowOf.get j = some k) :
    low ≤ p.row k ∧ p.row k ≤ high := by
  rcases known with rfl | ⟨j, holds⟩
  · exact ⟨growing.low_le, growing.le_high⟩
  · obtain ⟨j', free⟩ := growing.apart.exists_free
    have own := growing.tight holds
    have other := growing.feasible holds j'
    have := growing.free free
    have := growing.column_nonpos j
    have := between.low_le k j
    have := between.le_high k j'
    unfold Plan.slack at own other
    omega

theorem Growing.column_bounds (j : Fin n) : low - high ≤ p.column j ∧ p.column j ≤ 0 := by
  refine ⟨?_, growing.column_nonpos j⟩
  have := between.low_nonpos
  have := between.high_nonneg
  cases holds : rowOf.get j with
  | none =>
    have := growing.free holds
    omega
  | some k =>
    have own := growing.tight holds
    have := growing.row_bounds between (.inr ⟨j, holds⟩)
    have := between.low_le k j
    unfold Plan.slack at own
    omega

/-- Slacks of rows of the tree. -/
theorem Growing.slack_bounds {k : Fin n} (known : k = i ∨ ∃ j, rowOf.get j = some k) (j : Fin n) :
    low - high ≤ p.slack c k j ∧ p.slack c k j ≤ 2 * (high - low) := by
  have := growing.row_bounds between known
  have := growing.column_bounds between j
  have := between.low_le k j
  have := between.le_high k j
  unfold Plan.slack
  omega

end Bounds

theorem InTree.known {k : Fin n} (tree : InTree i rowOf reached k) :
    k = i ∨ ∃ j, rowOf.get j = some k :=
  tree.imp id fun ⟨j, _, holds⟩ => ⟨j, holds⟩

/-! ### Raising the tree -/

section Raised

variable {delta : Int}

theorem slack_raised (k j : Fin n) : (p.raised i rowOf reached delta).slack c k j =
    p.slack c k j - (if InTree i rowOf reached k then delta else 0) +
      (if reached.get j = true then delta else 0) := by
  unfold Plan.slack Plan.raised
  dsimp only
  split <;> split <;> omega

/-- Within the tree nothing changes. -/
theorem slack_raised_of_reached {k j : Fin n} (tree : InTree i rowOf reached k)
    (known : reached.get j = true) :
    (p.raised i rowOf reached delta).slack c k j = p.slack c k j := by
  rw [slack_raised, if_pos tree, if_pos known]
  omega

theorem slack_raised_of_unreached {k j : Fin n} (tree : InTree i rowOf reached k)
    (unreached : reached.get j = false) :
    (p.raised i rowOf reached delta).slack c k j = p.slack c k j - delta := by
  rw [slack_raised, if_pos tree, if_neg (by simp [unreached])]
  omega

theorem Labelled.raised (labelled : Labelled c i rowOf p reached parent length) (delta : Int) :
    Labelled c i rowOf (p.raised i rowOf reached delta) reached parent
      fun j => length j - delta where
  least unreached _ tree := by
    rw [slack_raised_of_unreached tree unreached]
    exact sub_le_sub_right (labelled.least unreached tree) delta
  attained unreached := by
    rw [slack_raised_of_unreached (inTree_heldBy (labelled.back unreached)) unreached,
      labelled.attained unreached]
  back := labelled.back

variable (growing : Growing c low high i rowOf base p reached parent)
  (labelled : Labelled c i rowOf p reached parent length)
  (nearest : ∃ j, reached.get j = false ∧ length j = delta)
  (least : ∀ j, reached.get j = false → delta ≤ length j)

include growing labelled nearest in
/-- Once a column was reached potentials are raised by no less than zero. -/
theorem Growing.delta_nonneg {j : Fin n} (known : reached.get j = true) : 0 ≤ delta := by
  obtain ⟨j', unreached, rfl⟩ := nearest
  rw [labelled.attained unreached]
  rcases (inTree_heldBy (labelled.back unreached)).known with same | ⟨_, holds⟩
  · rw [same]
    exact growing.entered known j'
  · exact growing.feasible holds j'

include labelled least in
/-- Rows of the tree are left without negative slack where they had none. -/
theorem slack_raised_nonneg {k : Fin n} (tree : InTree i rowOf reached k) (j : Fin n)
    (nonneg : reached.get j = true → 0 ≤ p.slack c k j) :
    0 ≤ (p.raised i rowOf reached delta).slack c k j := by
  cases known : reached.get j with
  | true =>
    rw [slack_raised_of_reached tree known]
    exact nonneg known
  | false =>
    rw [slack_raised_of_unreached tree known]
    exact sub_nonneg.mpr ((least j known).trans (labelled.least known tree))

include growing labelled nearest least

theorem Growing.dual_raised : Dual c rowOf (p.raised i rowOf reached delta) where
  distinct := growing.distinct
  tight {j k} holds := by
    have same : InTree i rowOf reached k ↔ reached.get j = true := by
      constructor
      · rintro (rfl | ⟨j', known, held⟩)
        · exact absurd holds (growing.idle j)
        · rwa [growing.distinct holds held]
      · exact fun known => .inr ⟨j, known, holds⟩
    rw [slack_raised, growing.tight holds]
    simp only [same]
    omega
  feasible {j k} holds j' := by
    by_cases tree : InTree i rowOf reached k
    · exact slack_raised_nonneg labelled least tree j' fun _ => growing.feasible holds j'
    · have := growing.feasible holds j'
      rw [slack_raised, if_neg tree]
      split
      · rename_i known
        have := growing.delta_nonneg labelled nearest known
        omega
      · omega
  free {j} free := by
    have unreached := growing.unreached free
    have := growing.free free
    simp [Plan.raised, unreached, this]
  column_nonpos j := by
    have := growing.column_nonpos j
    unfold Plan.raised
    dsimp only
    split
    · rename_i known
      have := growing.delta_nonneg labelled nearest known
      omega
    · exact this

/-- Raising the potentials of a tree by its least label preserves it, and leaves the row that enters
without negative slack. -/
theorem Growing.raised (between : Between c low high) :
    Growing c low high i rowOf base (p.raised i rowOf reached delta) reached parent ∧
      ∀ j, 0 ≤ (p.raised i rowOf reached delta).slack c i j := by
  have root : InTree i rowOf reached i := .inl rfl
  have own : (p.raised i rowOf reached delta).row i = p.row i + delta := if_pos root
  have entered : ∀ j, 0 ≤ (p.raised i rowOf reached delta).slack c i j := fun j =>
    slack_raised_nonneg labelled least root j fun known => growing.entered known j
  have dual := growing.dual_raised labelled nearest least
  refine ⟨⟨dual, growing.idle, fun {k} other none_held => ?_, growing.held, fun _ => entered, ?_, ?_,
    ?_, ?_⟩, entered⟩
  · have outside : ¬ InTree i rowOf reached k := by
      rintro (same | ⟨j, _, holds⟩)
      · exact other same
      · exact none_held j holds
    exact (if_neg outside).trans (growing.waiting other none_held)
  · rw [own]
    by_cases some_reached : ∃ j, reached.get j = true
    · obtain ⟨j, known⟩ := some_reached
      have := growing.delta_nonneg labelled nearest known
      have := growing.low_le
      omega
    · -- The tree is the root alone, and the least label is a slack of its row.
      obtain ⟨j, unreached, rfl⟩ := nearest
      have parent_none : parent.get j = none := by
        by_contra other
        obtain ⟨k, before⟩ := Option.ne_none_iff_exists'.mp other
        exact some_reached ⟨k, labelled.back unreached before⟩
      have attained := labelled.attained unreached
      have := growing.column_nonpos j
      have := between.low_le i j
      rw [parent_none, heldBy] at attained
      unfold Plan.slack at attained
      omega
  · obtain ⟨j, free⟩ := growing.apart.exists_free
    have left := entered j
    have := dual.free free
    have := between.le_high i j
    unfold Plan.slack at left
    omega
  · have := growing.root_eq
    rw [own]
    show p.root - delta + _ = _
    omega
  · obtain ⟨rank, leads⟩ := growing.leads
    refine ⟨rank, fun j known => ⟨(leads j known).1, ?_, (leads j known).2.back⟩⟩
    rw [slack_raised_of_reached (inTree_heldBy fun same => ((leads j known).2.back same).1) known]
    exact (leads j known).2.tight

end Raised

/-! ### One round -/

/-- The range holds all that is computed for entries between two bounds. -/
def Roomy (n : Nat) (within : Int → Prop) (low high : Int) : Prop :=
  ∀ x : Int, |x| ≤ (n + 2) * (high - low) → within x

section Round

variable {α : Type} {denotes : α → Int → Prop} {within : Int → Prop} {cost : Square n α}
  {s : State n α} {t : Tree n α}

theorem Roomy.of_bounds (roomy : Roomy n within low high) (between : Between c low high) {x : Int}
    (below : -(2 * (high - low)) ≤ x) (above : x ≤ 2 * (high - low)) : within x := by
  have := between.low_nonpos
  have := between.high_nonneg
  have share : 0 ≤ (n : Int) * (high - low) := mul_nonneg (Int.natCast_nonneg n) (by omega)
  apply roomy
  rw [abs_le]
  constructor <;> linarith

/-- What looking from a row computes. -/
theorem Growing.fits_look (roomy : Roomy n within low high) (between : Between c low high)
    (growing : Growing c low high i rowOf base p reached parent) {k : Fin n}
    (known : k = i ∨ ∃ j, rowOf.get j = some k) (j : Fin n) :
    within (c k j) ∧ within (p.row k) ∧ within (c k j - p.row k) ∧ within (p.column j) ∧
      within (c k j - p.row k - p.column j) := by
  have := between.low_nonpos
  have := between.high_nonneg
  have := between.low_le k j
  have := between.le_high k j
  have := growing.row_bounds between known
  have := growing.column_bounds between j
  refine ⟨?_, ?_, ?_, ?_, ?_⟩ <;> apply roomy.of_bounds between <;> omega

/-- What raising the potentials of a tree computes. -/
theorem Growing.fits_raise (roomy : Roomy n within low high) (between : Between c low high)
    (base_small : |base| ≤ n * (high - low))
    (growing : Growing c low high i s.rowOf base p t.reached parent)
    (labelled : Labelled c i s.rowOf p t.reached parent length) {delta : Int}
    (nearest : ∃ j, t.reached.get j = false ∧ length j = delta)
    (least : ∀ j, t.reached.get j = false → delta ≤ length j) :
    Fits within i s t p length delta := by
  have := between.low_nonpos
  have := between.high_nonneg
  obtain ⟨after, -⟩ := growing.raised labelled nearest least between
  have labelled' := labelled.raised delta
  have label : ∀ j, t.reached.get j = false → within (length j) := by
    intro j unreached
    have := growing.slack_bounds between (inTree_heldBy (labelled.back unreached)).known j
    rw [labelled.attained unreached]
    apply roomy.of_bounds between <;> omega
  have root : ∀ r, low ≤ base - r → base - r ≤ high → within r := by
    intro r below above
    rw [abs_le] at base_small
    apply roomy
    rw [abs_le]
    constructor <;> linarith
  constructor
  · obtain ⟨j, unreached, rfl⟩ := nearest
    exact label j unreached
  · intro k tree
    have before := growing.row_bounds between tree.known
    have raised := after.row_bounds between tree.known
    rw [show (p.raised i s.rowOf t.reached delta).row k = p.row k + delta from if_pos tree] at raised
    constructor <;> apply roomy.of_bounds between <;> omega
  · intro j known
    have before := growing.column_bounds between j
    have lowered := after.column_bounds between j
    rw [show (p.raised i s.rowOf t.reached delta).column j = p.column j - delta from
      if_pos known] at lowered
    constructor <;> apply roomy.of_bounds between <;> omega
  · intro j unreached
    have lowered := after.slack_bounds between (inTree_heldBy (labelled.back unreached)).known j
    rw [← labelled'.attained unreached] at lowered
    refine ⟨label j unreached, ?_⟩
    apply roomy.of_bounds between <;> omega
  · have before := growing.root_eq
    have lowered := after.root_eq
    have := growing.low_le
    have := growing.le_high
    have := after.low_le
    have := after.le_high
    change p.root - delta + _ = _ at lowered
    exact ⟨root _ (by omega) (by omega), root _ (by omega) (by omega)⟩

/-- A tree with labels, as it stands for a plan. -/
structure Looked (denotes : α → Int → Prop) (c : Fin n → Fin n → Int) (low high : Int) (i : Fin n)
    (base : Int) (s : State n α) (t : Tree n α) (p : Plan n) (length : Fin n → Int) : Prop where
  shows : Shows denotes s p
  labels : Labels denotes t fun j => some (length j)
  growing : Growing c low high i s.rowOf base p t.reached t.parent
  labelled : Labelled c i s.rowOf p t.reached t.parent length

variable [Quantity α]

/-- The nearest column is made tight. -/
theorem Looked.raise_nearest (faithful : Quantity.Faithful denotes within)
    (roomy : Roomy n within low high) (between : Between c low high)
    (base_small : |base| ≤ n * (high - low))
    (looked : Looked denotes c low high i base s t p length) :
    ∃ j a s' t' p' length', nearest t = some (j, a) ∧
      raise i a { s with iterations := s.iterations + 1 } t = .ok (s', t') ∧
      s'.rowOf = s.rowOf ∧ s'.iterations = s.iterations + 1 ∧ t'.reached = t.reached ∧
      Looked denotes c low high i base s' t' p' length' ∧ (∀ j', 0 ≤ p'.slack c i j') ∧
      t.reached.get j = false ∧ length' j = 0 := by
  obtain ⟨shows, labels, growing, labelled⟩ := looked
  obtain ⟨free, none_holds⟩ := growing.apart.exists_free
  obtain ⟨j, a, chosen, unreached, -, value, least⟩ :=
    nearest_ends faithful labels ⟨free, growing.unreached none_holds⟩
  have fits := growing.fits_raise roomy between base_small labelled ⟨j, unreached, rfl⟩ least
  obtain ⟨s', t', raised, rowOf, iterations, reached, parent, shows', labels'⟩ :=
    raise_ends faithful (s := { s with iterations := s.iterations + 1 })
      ⟨shows.row, shows.column, shows.root⟩ labels value growing.apart
      ⟨fits.by_delta, fits.row, fits.column, fits.label, fits.root⟩
  obtain ⟨growing', entered⟩ := growing.raised labelled ⟨j, unreached, rfl⟩ least between
  refine ⟨j, a, s', t', _, _, chosen, raised, rowOf, iterations, reached,
    ⟨shows', labels', ?_, ?_⟩, entered, unreached, sub_self _⟩
  · rw [rowOf, reached, parent]
    exact growing'
  · rw [rowOf, reached, parent]
    exact labelled.raised _

end Round

/-! ### Looking from one more row -/

section Look

variable {α : Type} {denotes : α → Int → Prop} {within : Int → Prop} {cost : Square n α}
  {s : State n α} {t : Tree n α}

/-- A tree does not depend on the parents of columns that were not reached. -/
theorem Growing.of_parent {parent' : Table n (Option (Fin n))}
    (growing : Growing c low high i rowOf base p reached parent)
    (same : ∀ j, reached.get j = true → parent'.get j = parent.get j) :
    Growing c low high i rowOf base p reached parent' := by
  obtain ⟨rank, leads⟩ := growing.leads
  refine { growing with leads := ⟨rank, fun j known => ⟨(leads j known).1, ?_, ?_⟩⟩ }
  · rw [same j known]
    exact (leads j known).2.tight
  · rw [same j known]
    exact (leads j known).2.back

/-- A tight column leads back to the root like those that were reached. -/
theorem Growing.leads_with (growing : Growing c low high i rowOf base p reached parent) {j : Fin n}
    (unreached : reached.get j = false)
    (tight : p.slack c (heldBy i rowOf (parent.get j)) j = 0)
    (back : ∀ {k}, parent.get j = some k → reached.get k = true) :
    ∃ rank : Fin n → Nat, ∀ a, reached.get a = true ∨ a = j →
      rank a ≤ (columnsReached reached).card ∧ Leads c i rowOf p reached parent rank a := by
  obtain ⟨rank, leads⟩ := growing.leads
  have other : ∀ {a}, reached.get a = true → a ≠ j := by
    rintro a known rfl
    rw [unreached] at known
    cases known
  refine ⟨fun a => if a = j then (columnsReached reached).card else rank a, ?_⟩
  rintro a (known | rfl)
  · obtain ⟨below, tight', back'⟩ := leads a known
    simp only [if_neg (other known)]
    refine ⟨below.le, tight', fun before => ?_⟩
    obtain ⟨known', lower⟩ := back' before
    rw [if_neg (other known'), if_neg (other known)]
    exact ⟨known', lower⟩
  · simp only [if_pos]
    refine ⟨Nat.le_refl _, tight, fun before => ?_⟩
    rw [if_pos rfl, if_neg (other (back before))]
    exact ⟨back before, (leads _ (back before)).1⟩

/-- A column that was made tight is reached from then on. -/
theorem Growing.reach {j k : Fin n} (growing : Growing c low high i rowOf base p reached parent)
    (labelled : Labelled c i rowOf p reached parent length) (unreached : reached.get j = false)
    (tight : length j = 0) (holds : rowOf.get j = some k) (entered : ∀ j', 0 ≤ p.slack c i j') :
    Growing c low high i rowOf base p (reached.update j true) parent := by
  have known_before : ∀ {a}, (reached.update j true).get a = true → reached.get a = true ∨ a = j := by
    intro a known
    by_cases same : j = a
    · exact .inr same.symm
    · exact .inl (by simpa [same] using known)
  obtain ⟨rank, leads⟩ := growing.leads_with unreached
    ((labelled.attained unreached).symm.trans tight) (labelled.back unreached)
  refine { growing with
    held := fun known => ?_, entered := fun _ => entered
    leads := ⟨rank, fun a known => ?_⟩ }
  · rcases known_before known with old | rfl
    · exact growing.held old
    · exact ⟨k, holds⟩
  · obtain ⟨below, tight', back⟩ := leads a (known_before known)
    rw [card_columnsReached_update unreached]
    refine ⟨Nat.lt_succ_of_le below, tight', fun before => ?_⟩
    obtain ⟨known', lower⟩ := back before
    refine ⟨?_, lower⟩
    rw [Table.get_update, known', ite_self]

/-- What a column was seen at and its label before leave the lesser of the two. -/
theorem Sees.lesser {source : Option (Fin n)} {x l : Int} {t' : Tree n α} {j : Fin n}
    (sees : Sees denotes source x (some l) t t' j) :
    (min x l = x ∧ (∃ a, t'.label.get j = some a ∧ denotes a x) ∧ t'.parent.get j = source) ∨
    (min x l = l ∧ t'.label.get j = t.label.get j ∧ t'.parent.get j = t.parent.get j) := by
  unfold Sees better at sees
  by_cases nearer : x < l
  · rw [if_pos (by simpa using nearer)] at sees
    exact .inl ⟨min_eq_left nearer.le, sees⟩
  · rw [if_neg (by simpa using nearer)] at sees
    exact .inr ⟨min_eq_right (not_lt.mp nearer), sees⟩

variable [Quantity α]

/-- Looking from the row that enters. -/
theorem look_first (faithful : Quantity.Faithful denotes within)
    (roomy : Roomy n within low high) (between : Between c low high)
    (entries : ∀ k j, denotes (entry cost k j) (c k j)) (shows : Shows denotes s p)
    (growing : Growing c low high i s.rowOf base p (Table.fill n false) (Table.fill n none)) :
    ∃ t' length, (List.finRange n).foldlM (look (cost.get i) s i none) Tree.root = .ok t' ∧
      t'.reached = Table.fill n false ∧
      Looked denotes c low high i base s t' p length := by
  have unlabelled : Labels denotes (Tree.root : Tree n α) fun _ => none := by
    intro j _
    simp [Tree.root]
  obtain ⟨t', ok, reached, kept, seen⟩ := looks_ends i none faithful
    (entries i) shows unlabelled
    fun j _ => growing.fits_look roomy between (.inl rfl) j
  have unreached : ∀ j, (Tree.root : Tree n α).reached.get j = false := by simp [Tree.root]
  have fresh : ∀ j, (∃ a, t'.label.get j = some a ∧ denotes a (p.slack c i j)) ∧
      t'.parent.get j = none := fun j => by
    simpa [Sees, better, Plan.slack] using seen j (unreached j)
  refine ⟨t', p.slack c i, ok, reached, shows, fun j _ => ?_, ?_, ?_, ?_, ?_⟩
  · obtain ⟨⟨a, label, value⟩, -⟩ := fresh j
    rw [label]
    exact .some value
  · rw [reached]
    exact growing.of_parent fun j known => by simp at known
  · rintro j - k (rfl | ⟨a, known, -⟩)
    · exact le_rfl
    · simp [reached, Tree.root] at known
  · intro j _
    rw [(fresh j).2]
    rfl
  · intro j k _ before
    rw [(fresh j).2] at before
    cases before

/-- Looking from the row that holds a column which was made tight. -/
theorem look_next (faithful : Quantity.Faithful denotes within)
    (roomy : Roomy n within low high) (between : Between c low high)
    (entries : ∀ k j, denotes (entry cost k j) (c k j)) {j k : Fin n}
    (looked : Looked denotes c low high i base s t p length)
    (unreached : t.reached.get j = false) (tight : length j = 0)
    (holds : s.rowOf.get j = some k) (entered : ∀ j', 0 ≤ p.slack c i j') :
    ∃ t' length', (List.finRange n).foldlM (look (cost.get k) s k (some j)) (t.reach (some j)) =
        .ok t' ∧ t'.reached = t.reached.update j true ∧
      Looked denotes c low high i base s t' p length' := by
  obtain ⟨shows, labels, growing, labelled⟩ := looked
  have grown := growing.reach labelled unreached tight holds entered
  have before : ∀ a, (t.reach (some j)).reached.get a = false →
      t.reached.get a = false ∧ a ≠ j := by
    intro a left
    by_cases same : j = a
    · simp [Tree.reach, same] at left
    · exact ⟨by simpa [Tree.reach, same] using left, Ne.symm same⟩
  have others : ∀ a, (t.reach (some j)).reached.get a = true → t.reached.get a = true ∨ a = j := by
    intro a known
    by_cases same : j = a
    · exact .inr same.symm
    · exact .inl (by simpa [Tree.reach, same] using known)
  obtain ⟨t', ok, reached, kept, seen⟩ := looks_ends (t := t.reach (some j)) k (some j)
    faithful (entries k) shows (fun a left => labels a (before a left).1)
    fun a _ => growing.fits_look roomy between (.inr ⟨j, holds⟩) a
  rw [← reached] at before others kept seen
  replace seen : ∀ a, t'.reached.get a = false →
      Sees denotes (some j) (p.slack c k a) (some (length a)) (t.reach (some j)) t' a := seen
  refine ⟨t', fun a => min (p.slack c k a) (length a), ok, reached, shows, fun a left => ?_, ?_,
    ?_, ?_, ?_⟩
  · change Option.Rel denotes _ (some (min (p.slack c k a) (length a)))
    obtain ⟨lesser, ⟨b, label, value⟩, -⟩ | ⟨lesser, same, -⟩ := (seen a left).lesser
    · rw [label, lesser]
      exact .some value
    · rw [same, lesser]
      exact labels a (before a left).1
  · rw [reached]
    exact grown.of_parent fun a known => kept a (reached ▸ known)
  · rintro a left m (rfl | ⟨b, known, held⟩)
    · exact (min_le_right _ _).trans (labelled.least (before a left).1 (.inl rfl))
    · rcases others b known with old | rfl
      · exact (min_le_right _ _).trans (labelled.least (before a left).1 (.inr ⟨b, old, held⟩))
      · rw [holds] at held
        cases held
        exact min_le_left _ _
  · intro a left
    obtain ⟨lesser, -, same⟩ | ⟨lesser, -, same⟩ := (seen a left).lesser
    · rw [same, show heldBy i s.rowOf (some j) = k by simp [heldBy, holds]]
      exact lesser
    · rw [same]
      exact lesser.trans (labelled.attained (before a left).1)
  · intro a b left known
    have still : ∀ {b}, t.reached.get b = true → t'.reached.get b = true := by
      intro b known
      rw [reached]
      by_cases same : j = b <;> simp [Tree.reach, same, known]
    obtain ⟨-, -, same⟩ | ⟨-, -, same⟩ := (seen a left).lesser
    · rw [same, Option.some.injEq] at known
      rw [reached, ← known]
      simp [Tree.reach]
    · rw [same] at known
      exact still (labelled.back (before a left).1 known)

/-! ### All rounds -/

/-- What growing a tree ends with: a column that no row holds, tight to a row of the tree. -/
structure Grown (denotes : α → Int → Prop) (c : Fin n → Fin n → Int) (low high : Int) (i : Fin n)
    (base : Int) (rowOf : Table n (Option (Fin n))) (s' : State n α) (t' : Tree n α) (j : Fin n)
    (p : Plan n) : Prop where
  rowOf_eq : s'.rowOf = rowOf
  free : rowOf.get j = none
  shows : Shows denotes s' p
  growing : Growing c low high i rowOf base p t'.reached t'.parent
  entered : ∀ j', 0 ≤ p.slack c i j'
  tight : p.slack c (heldBy i rowOf (t'.parent.get j)) j = 0
  back : ∀ {k}, t'.parent.get j = some k → t'.reached.get k = true

/-- A tree grows until a free column is found, after one round for each column that was reached and
one more. -/
theorem grow_ends (faithful : Quantity.Faithful denotes within)
    (roomy : Roomy n within low high) (between : Between c low high)
    (entries : ∀ k j, denotes (entry cost k j) (c k j)) (base_small : |base| ≤ n * (high - low))
    (fuel : Nat) (source : Option (Fin n)) {t₁ : Tree n α}
    (ok : (List.finRange n).foldlM (look (cost.get (holder i s source)) s (holder i s source) source)
      (t.reach source) = .ok t₁)
    (looked : Looked denotes c low high i base s t₁ p length)
    (enough : n ≤ (columnsReached t₁.reached).card + fuel) :
    ∃ s' t' j p', grow cost i fuel source s t = .ok (s', t', j) ∧
      Grown denotes c low high i base s.rowOf s' t' j p' ∧
      s'.iterations + (columnsReached t₁.reached).card =
        s.iterations + (columnsReached t'.reached).card + 1 := by
  induction fuel generalizing source s t t₁ p length with
  | zero => exact absurd looked.growing.card_lt (not_lt.mpr enough)
  | succ fuel ih =>
    obtain ⟨j, a, s', t', p', length', chosen, raised, rowOf, iterations, reached, looked', entered,
      unreached, tight⟩ := looked.raise_nearest faithful roomy between base_small
    rw [← reached] at unreached
    have attained := looked'.labelled.attained unreached
    have round : grow cost i (fuel + 1) source s t =
        if (s'.rowOf.get j).isNone then pure (s', t', j) else grow cost i fuel (some j) s' t' := by
      rw [grow, ok]
      simp only [Failure.arith, Except.mapError, bind, Except.bind, chosen, raised]
    rw [round]
    cases holds : s'.rowOf.get j with
    | none =>
      refine ⟨s', t', j, p', rfl, ⟨rowOf, rowOf ▸ holds, looked'.shows,
        rowOf ▸ looked'.growing, entered, ?_, looked'.labelled.back unreached⟩, ?_⟩
      · rw [← rowOf, ← attained, tight]
      · rw [iterations, reached]
        omega
    | some k =>
      obtain ⟨t₂, length₂, ok₂, reached₂, looked₂⟩ :=
        look_next faithful roomy between entries looked' unreached tight holds entered
      have card₂ := card_columnsReached_update unreached
      rw [← reached₂] at card₂
      have held : holder i s' (some j) = k := by simp [holder, holds]
      obtain ⟨s'', t'', j', p'', grown, ends, rounds⟩ := ih (some j) (held ▸ ok₂) looked₂
        (by rw [card₂, reached]; omega)
      refine ⟨s'', t'', j', p'', grown, ?_, ?_⟩
      · rwa [rowOf] at ends
      · rw [card₂, reached, iterations] at rounds
        omega

end Look

end Optima.Assignment.Hungarian
