import Mathlib.Data.Fintype.Basic
import Mathlib.Data.Option.Basic
import Optima.Assignment.Hungarian
import Optima.Proofs.Number.Faithful
import Optima.Proofs.Run
import Optima.Proofs.Table

/-!
The steps of growing a tree, read in integers. A state of the Hungarian method stands for integer
potentials (`Plan`), and the labels of a tree stand for integer lengths. Looking from a row,
choosing the nearest column and raising potentials each do to the integers what they should, as long
as the quantities are faithful to what the steps compute (`looks_ends`, `nearest_ends`,
`raise_ends`).
-/

namespace Optima.Assignment.Hungarian

variable {α : Type} [Quantity α] {n : Nat} {denotes : α → Int → Prop} {within : Int → Prop}

/-- Integer potentials. -/
structure Plan (n : Nat) where
  row : Fin n → Int
  column : Fin n → Int
  root : Int

/-- The cost of an entry less the potentials of its row and column. -/
def Plan.slack (p : Plan n) (c : Fin n → Fin n → Int) (k j : Fin n) : Int :=
  c k j - p.row k - p.column j

/-- The potentials of a state denote those of a plan. -/
structure Shows (denotes : α → Int → Prop) (s : State n α) (p : Plan n) : Prop where
  row : ∀ k, denotes (s.rowPotential.get k) (p.row k)
  column : ∀ j, denotes (s.columnPotential.get j) (p.column j)
  root : denotes s.rootPotential p.root

/-- The labels of the columns that were not reached denote lengths. -/
def Labels (denotes : α → Int → Prop) (t : Tree n α) (length : Fin n → Option Int) : Prop :=
  ∀ j, t.reached.get j = false → Option.Rel denotes (t.label.get j) (length j)

/-- A row belongs to the tree of the row `i`: it is `i`, or holds a column that was reached. -/
def InTree (i : Fin n) (rowOf : Table n (Option (Fin n))) (reached : Table n Bool) (k : Fin n) :
    Prop :=
  k = i ∨ ∃ j, reached.get j = true ∧ rowOf.get j = some k

instance (i : Fin n) (rowOf : Table n (Option (Fin n))) (reached : Table n Bool) :
    DecidablePred (InTree i rowOf reached) := fun _ => inferInstanceAs (Decidable (_ ∨ _))

/-! ### Looking from a row -/

/-- The lesser of a length and the label before, if there was one. -/
def better (x : Int) : Option Int → Bool
  | some l => x < l
  | none => true

theorem shorter_eq (faithful : Quantity.Faithful denotes within) {a : α} {x : Int}
    (value : denotes a x) {label : Option α} {l : Option Int} (shows : Option.Rel denotes label l) :
    shorter a label = better x l := by
  cases shows with
  | none => exact faithful.bounded value
  | some shows => exact faithful.less value shows

/-- A column after it was seen at a length `x`: the length becomes its label if it is shorter than
the one before. -/
def Sees (denotes : α → Int → Prop) (source : Option (Fin n)) (x : Int) (before : Option Int)
    (t t' : Tree n α) (j : Fin n) : Prop :=
  if better x before then
    (∃ a, t'.label.get j = some a ∧ denotes a x) ∧ t'.parent.get j = source
  else t'.label.get j = t.label.get j ∧ t'.parent.get j = t.parent.get j

section Look

variable {costs : Table n α} {f : Fin n → Int} {s : State n α} {p : Plan n} {row : Fin n}
  {source : Option (Fin n)} {t : Tree n α} {length : Fin n → Option Int}

theorem look_ends (row : Fin n) (source : Option (Fin n))
    (faithful : Quantity.Faithful denotes within) {j : Fin n}
    (entry : denotes (costs.get j) (f j)) (shows : Shows denotes s p)
    (free : t.reached.get j = false) (label : Option.Rel denotes (t.label.get j) (length j))
    (fits : within (f j) ∧ within (p.row row) ∧ within (f j - p.row row) ∧ within (p.column j) ∧
      within (f j - p.row row - p.column j)) :
    ∃ t', look costs s row source t j = .ok t' ∧ t'.reached = t.reached ∧
      (∀ k, k ≠ j → t'.label.get k = t.label.get k ∧ t'.parent.get k = t.parent.get k) ∧
      Sees denotes source (f j - p.row row - p.column j) (length j) t t' j := by
  obtain ⟨fits_f, fits_u, fits_part, fits_v, fits_slack⟩ := fits
  obtain ⟨part, subtracted, part_shows⟩ :=
    faithful.sub entry (shows.row row) fits_f fits_u fits_part
  obtain ⟨a, subtracted', value⟩ :=
    faithful.sub part_shows (shows.column j) fits_part fits_v fits_slack
  have compared := shorter_eq faithful value label
  unfold look Sees
  simp only [free, Bool.false_eq_true, if_false, subtracted, subtracted', bind, Except.bind,
    compared]
  split
  · refine ⟨_, rfl, rfl, fun k other => ?_, ⟨a, ?_, value⟩, ?_⟩
    · simp [other.symm]
    · simp
    · simp
  · exact ⟨t, rfl, rfl, fun _ _ => ⟨rfl, rfl⟩, rfl, rfl⟩

/-- A row is seen from by all columns that were not reached. -/
theorem looks_ends (row : Fin n) (source : Option (Fin n))
    (faithful : Quantity.Faithful denotes within)
    (entries : ∀ j, denotes (costs.get j) (f j)) (shows : Shows denotes s p)
    (labels : Labels denotes t length)
    (fits : ∀ j, t.reached.get j = false → within (f j) ∧ within (p.row row) ∧
      within (f j - p.row row) ∧ within (p.column j) ∧ within (f j - p.row row - p.column j)) :
    ∃ t', (List.finRange n).foldlM (look costs s row source) t = .ok t' ∧
      t'.reached = t.reached ∧ (∀ j, t.reached.get j = true → t'.parent.get j = t.parent.get j) ∧
      ∀ j, t.reached.get j = false →
        Sees denotes source (f j - p.row row - p.column j) (length j) t t' j := by
  obtain ⟨t', ok, reached, kept, seen⟩ := exists_foldlM (look costs s row source) (a := t)
    (fun done t' => t'.reached = t.reached ∧
      (∀ j, j ∉ done ∨ t.reached.get j = true →
        t'.label.get j = t.label.get j ∧ t'.parent.get j = t.parent.get j) ∧
      ∀ j ∈ done, t.reached.get j = false →
        Sees denotes source (f j - p.row row - p.column j) (length j) t t' j)
    (List.nodup_finRange n) ⟨rfl, fun _ _ => ⟨rfl, rfl⟩, fun _ mem => absurd mem List.not_mem_nil⟩
    (by
      rintro done j t' new ⟨reached, kept, seen⟩
      obtain ⟨label, parent⟩ := kept j (.inl new)
      cases known : t.reached.get j with
      | true =>
        refine ⟨t', ?_, reached, fun k other => kept k ?_, fun k mem free => ?_⟩
        · unfold look
          rw [reached, known]
          rfl
        · grind
        · grind
      | false =>
        obtain ⟨t'', looked, reached', others, own⟩ := look_ends row source faithful
          (entries j) shows (reached ▸ known) (label ▸ labels j known) (fits j known)
        refine ⟨t'', looked, reached'.trans reached, fun k other => ?_, fun k mem free => ?_⟩
        · have apart : k ≠ j := by grind
          rw [(others k apart).1, (others k apart).2]
          exact kept k (by grind)
        · by_cases same : k = j
          · subst same
            unfold Sees at own ⊢
            rwa [label, parent] at own
          · have before := seen k (by grind) free
            unfold Sees at before ⊢
            rwa [(others k same).1, (others k same).2])
  exact ⟨t', ok, reached, fun j known => (kept j (.inr known)).2,
    fun j free => seen j (List.mem_finRange j) free⟩

end Look

/-! ### The nearest column -/

section Nearest

variable {t : Tree n α} {length : Fin n → Int}

/-- A column that is the nearest of those seen so far, if there was one to be chosen. -/
def Nearest (denotes : α → Int → Prop) (t : Tree n α) (length : Fin n → Int)
    (seen : List (Fin n)) : Option (Fin n × α) → Prop
  | none => ∀ k ∈ seen, t.reached.get k = true
  | some (j, a) => t.reached.get j = false ∧ t.label.get j = some a ∧ denotes a (length j) ∧
      ∀ k ∈ seen, t.reached.get k = false → length j ≤ length k

theorem Nearest.next (faithful : Quantity.Faithful denotes within)
    (labels : Labels denotes t fun j => some (length j)) {seen : List (Fin n)}
    {best : Option (Fin n × α)} (chosen : Nearest denotes t length seen best) (j : Fin n) :
    Nearest denotes t length (seen ++ [j])
      (if t.reached.get j then best
      else match t.label.get j with
        | none => best
        | some label => if shorter label (best.map (·.2)) then some (j, label) else best) := by
  have last : ∀ k ∈ seen ++ [j], k ∈ seen ∨ k = j := by simp
  cases known : t.reached.get j with
  | true =>
    rw [if_pos rfl]
    cases best with
    | none => exact fun k mem => (last k mem).elim (chosen k) fun same => same ▸ known
    | some pair =>
      refine ⟨chosen.1, chosen.2.1, chosen.2.2.1, fun k mem free => ?_⟩
      rcases last k mem with before | rfl
      · exact chosen.2.2.2 k before free
      · rw [known] at free
        cases free
  | false =>
    rw [if_neg Bool.false_ne_true]
    have label := labels j known
    cases value : t.label.get j with
    | none =>
      rw [value] at label
      cases label
    | some b =>
      rw [value, Option.rel_some_some] at label
      cases best with
      | none =>
        have first : shorter b none = true := faithful.bounded label
        simp only [Option.map_none, first, if_true]
        refine ⟨known, value, label, fun k mem free => ?_⟩
        rcases last k mem with before | rfl
        · rw [chosen k before] at free
          cases free
        · exact le_rfl
      | some pair =>
        obtain ⟨free, own, shows, least⟩ := chosen
        have compared : shorter b (some pair.2) = decide (length j < length pair.1) :=
          faithful.less label shows
        simp only [Option.map_some, compared, decide_eq_true_eq]
        by_cases nearer : length j < length pair.1
        · rw [if_pos nearer]
          refine ⟨known, value, label, fun k mem other => ?_⟩
          rcases last k mem with before | rfl
          · exact nearer.le.trans (least k before other)
          · exact le_rfl
        · rw [if_neg nearer]
          refine ⟨free, own, shows, fun k mem other => ?_⟩
          rcases last k mem with before | rfl
          · exact least k before other
          · exact not_lt.mp nearer

/-- Of the columns that were not reached the nearest is chosen. -/
theorem nearest_ends (faithful : Quantity.Faithful denotes within)
    (labels : Labels denotes t fun j => some (length j)) (left : ∃ j, t.reached.get j = false) :
    ∃ j a, nearest t = some (j, a) ∧ t.reached.get j = false ∧ t.label.get j = some a ∧
      denotes a (length j) ∧ ∀ k, t.reached.get k = false → length j ≤ length k := by
  have all : Nearest denotes t length (List.finRange n) (nearest t) :=
    foldl_brings (Nearest denotes t length) (List.nodup_finRange n)
      (fun k known => absurd known List.not_mem_nil)
      fun _ j _ _ chosen => chosen.next faithful labels j
  obtain ⟨free, unreached⟩ := left
  cases found : nearest t with
  | none =>
    rw [found] at all
    have reached := all free (List.mem_finRange free)
    rw [unreached] at reached
    cases reached
  | some pair =>
    rw [found] at all
    exact ⟨pair.1, pair.2, rfl, all.1, all.2.1, all.2.2.1, fun k => all.2.2.2 k (List.mem_finRange k)⟩

end Nearest

/-! ### Raising potentials -/

/-- The potentials after those of a tree were raised. -/
def Plan.raised (p : Plan n) (i : Fin n) (rowOf : Table n (Option (Fin n)))
    (reached : Table n Bool) (delta : Int) : Plan n where
  row k := if InTree i rowOf reached k then p.row k + delta else p.row k
  column j := if reached.get j then p.column j - delta else p.column j
  root := p.root - delta

section Raise

variable {i : Fin n} {s : State n α} {t : Tree n α} {p : Plan n} {length : Fin n → Int} {a : α}
  {delta : Int}

/-- State and tree after the potentials of the row `i` and of some columns were changed. -/
structure RaisedFor (denotes : α → Int → Prop) (i : Fin n) (s : State n α) (t : Tree n α)
    (p : Plan n) (length : Fin n → Int) (delta : Int) (done : List (Fin n))
    (st : State n α × Tree n α) : Prop where
  rowOf : st.1.rowOf = s.rowOf
  iterations : st.1.iterations = s.iterations
  reached : st.2.reached = t.reached
  parent : st.2.parent = t.parent
  root : denotes st.1.rootPotential (p.root - delta)
  row : ∀ k, denotes (st.1.rowPotential.get k)
    (if k = i ∨ ∃ j ∈ done, t.reached.get j = true ∧ s.rowOf.get j = some k then p.row k + delta
      else p.row k)
  column : ∀ j, denotes (st.1.columnPotential.get j)
    (if j ∈ done ∧ t.reached.get j = true then p.column j - delta else p.column j)
  label : ∀ j, t.reached.get j = false → Option.Rel denotes (st.2.label.get j)
    (some (if j ∈ done then length j - delta else length j))

/-- What raising the potentials of a tree computes. -/
structure Fits (within : Int → Prop) (i : Fin n) (s : State n α) (t : Tree n α) (p : Plan n)
    (length : Fin n → Int) (delta : Int) : Prop where
  by_delta : within delta
  row : ∀ k, InTree i s.rowOf t.reached k → within (p.row k) ∧ within (p.row k + delta)
  column : ∀ j, t.reached.get j = true → within (p.column j) ∧ within (p.column j - delta)
  label : ∀ j, t.reached.get j = false → within (length j) ∧ within (length j - delta)
  root : within p.root ∧ within (p.root - delta)

/-- One more column. -/
theorem raiseColumn_ends (faithful : Quantity.Faithful denotes within) (value : denotes a delta)
    (apart : Apart i s.rowOf) (fits : Fits within i s t p length delta)
    {done : List (Fin n)} {j : Fin n} {st : State n α × Tree n α} (new : j ∉ done)
    (raised : RaisedFor denotes i s t p length delta done st) :
    ∃ st', raiseColumn a st j = .ok st' ∧
      RaisedFor denotes i s t p length delta (done ++ [j]) st' := by
  obtain ⟨rowOf, iterations, reached, parent, root, row, column, label⟩ := raised
  obtain ⟨s', t'⟩ := st
  dsimp only at rowOf iterations reached parent root row column label
  unfold raiseColumn
  simp only [reached]
  cases known : t.reached.get j with
  | true =>
    rw [if_pos rfl]
    obtain ⟨fits_v, fits_v'⟩ := fits.column j known
    have old := column j
    rw [if_neg fun both => new both.1] at old
    obtain ⟨v, subtracted, v_shows⟩ := faithful.sub old value fits_v fits.by_delta fits_v'
    have columns : ∀ k, denotes ((s'.columnPotential.update j v).get k)
        (if k ∈ done ++ [j] ∧ t.reached.get k = true then p.column k - delta
          else p.column k) := by
      intro k
      by_cases same : k = j
      · subst same
        simpa [known] using v_shows
      · have other := column k
        simpa [same, Ne.symm same] using other
    have labels : ∀ k, t.reached.get k = false → Option.Rel denotes (t'.label.get k)
        (some (if k ∈ done ++ [j] then length k - delta else length k)) := by
      intro k free
      have other : k ≠ j := by
        rintro rfl
        rw [known] at free
        cases free
      simpa [other] using label k free
    simp only [subtracted, bind, Except.bind, rowOf]
    cases held : s.rowOf.get j with
    | none =>
      refine ⟨_, rfl, rfl, iterations, reached, parent, root, fun k => ?_, columns, labels⟩
      have before := row k
      simpa [or_and_right, exists_or, held] using before
    | some k =>
      have outside : ¬ (k = i ∨ ∃ c ∈ done, t.reached.get c = true ∧ s.rowOf.get c = some k) := by
        rintro (rfl | ⟨c, mem, _, holds⟩)
        · exact apart.idle j held
        · exact new (apart.distinct held holds ▸ mem)
      obtain ⟨fits_u, fits_u'⟩ := fits.row k (.inr ⟨j, known, held⟩)
      have old := row k
      rw [if_neg outside] at old
      obtain ⟨u, added, u_shows⟩ := faithful.add old value fits_u fits.by_delta fits_u'
      simp only [added]
      refine ⟨_, rfl, rfl, iterations, reached, parent, root, fun m => ?_, columns, labels⟩
      by_cases same : m = k
      · subst same
        simpa [held, known] using u_shows
      · have other := row m
        simpa [or_and_right, exists_or, held, Ne.symm same] using other
  | false =>
    rw [if_neg Bool.false_ne_true]
    have old := label j known
    rw [if_neg new] at old
    obtain ⟨fits_l, fits_l'⟩ := fits.label j known
    cases text : t'.label.get j with
    | none =>
      rw [text] at old
      cases old
    | some l =>
      rw [text, Option.rel_some_some] at old
      obtain ⟨l', subtracted, l_shows⟩ := faithful.sub old value fits_l fits.by_delta fits_l'
      have lowered : lowerLabel a (some l) = .ok (some l') := by
        rw [lowerLabel, subtracted]
        rfl
      simp only [lowered, bind, Except.bind]
      refine ⟨_, rfl, rowOf, iterations, rfl, parent, root, fun k => ?_, fun k => ?_,
        fun k free => ?_⟩
      · simpa [or_and_right, exists_or, known] using row k
      · have other := column k
        by_cases same : k = j
        · subst same
          simpa [known] using other
        · simpa [same] using other
      · by_cases same : k = j
        · subst same
          simpa using l_shows
        · simpa [same, Ne.symm same] using label k free

/-- Rows of a tree are raised, columns that were reached are lowered, and all other columns come
nearer. -/
theorem raise_ends (faithful : Quantity.Faithful denotes within) (shows : Shows denotes s p)
    (labels : Labels denotes t fun j => some (length j)) (value : denotes a delta)
    (apart : Apart i s.rowOf) (fits : Fits within i s t p length delta) :
    ∃ s' t', raise i a s t = .ok (s', t') ∧ s'.rowOf = s.rowOf ∧ s'.iterations = s.iterations ∧
      t'.reached = t.reached ∧ t'.parent = t.parent ∧
      Shows denotes s' (p.raised i s.rowOf t.reached delta) ∧
      Labels denotes t' fun j => some (length j - delta) := by
  obtain ⟨fits_u, fits_u'⟩ := fits.row i (.inl rfl)
  obtain ⟨root, lowered, root_shows⟩ :=
    faithful.sub shows.root value fits.root.1 fits.by_delta fits.root.2
  obtain ⟨u, added, u_shows⟩ := faithful.add (shows.row i) value fits_u fits.by_delta fits_u'
  obtain ⟨⟨s', t'⟩, ok, all⟩ := exists_foldlM _
    (a := ({ s with rootPotential := root, rowPotential := s.rowPotential.update i u }, t))
    (RaisedFor denotes i s t p length delta) (List.nodup_finRange n)
    ⟨rfl, rfl, rfl, rfl, root_shows, fun k => by
        by_cases same : k = i
        · subst same
          simpa using u_shows
        · simpa [same, Ne.symm same] using shows.row k,
      fun j => by simpa using shows.column j, fun j free => by simpa using labels j free⟩
    fun done j st new raised => raiseColumn_ends faithful value apart fits new raised
  refine ⟨s', t', ?_, all.rowOf, all.iterations, all.reached, all.parent,
    ⟨fun k => ?_, fun j => ?_, all.root⟩, fun j free => ?_⟩
  · unfold raise
    rw [lowered]
    simp only [bind, Except.bind, added]
    exact ok
  · have after := all.row k
    by_cases tree : InTree i s.rowOf t.reached k
    · rw [if_pos (by simpa [InTree] using tree)] at after
      simpa [Plan.raised, tree] using after
    · rw [if_neg (by simpa [InTree] using tree)] at after
      simpa [Plan.raised, tree] using after
  · simpa [Plan.raised] using all.column j
  · rw [all.reached] at free
    simpa using all.label j free

end Raise

end Optima.Assignment.Hungarian
