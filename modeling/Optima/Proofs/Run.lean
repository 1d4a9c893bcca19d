import Mathlib.Logic.Relation
import Optima.Run

/-!
Outcomes of computations, taken apart and put together along their sequencing; and runs that are
taken one turn after the other, where what the next turn leads to is a function of the place
reached. Such a run comes to its end if it comes to a place without a next one, and then all places
that it passes lead there (`Turns.ends`).
-/

namespace Optima

variable {ε δ α β : Type}

/-- A sequence succeeds with what its second part makes of the result of the first. -/
theorem bind_eq_ok_iff {x : Except ε α} {f : α → Except ε β} {b : β} :
    (x >>= f) = .ok b ↔ ∃ a, x = .ok a ∧ f a = .ok b := by
  constructor
  · intro ok
    cases x with
    | ok a => exact ⟨a, rfl, ok⟩
    | error e => cases ok
  · rintro ⟨a, rfl, ok⟩
    exact ok

theorem arith_eq_ok_iff {x : Except Fault α} {a : α} : Failure.arith x = .ok a ↔ x = .ok a := by
  constructor
  · intro ok
    cases x with
    | ok b =>
      cases ok
      rfl
    | error fault => cases ok
  · rintro rfl
    rfl

/-- A computation that succeeds for each element of a list succeeds for the list. -/
theorem mapM_eq_ok {f : α → Except ε β} {g : α → β} {xs : List α}
    (ok : ∀ x ∈ xs, f x = .ok (g x)) : xs.mapM f = .ok (xs.map g) := by
  induction xs with
  | nil => rfl
  | cons x xs ih =>
    rw [List.mapM_cons, ok x List.mem_cons_self, ih fun y known => ok y (.tail _ known)]
    rfl

/-- What every step of a fold keeps is kept by the fold. -/
theorem foldlM_keeps {P : α → Prop} {step : α → β → Except ε α}
    (keeps : ∀ a b a', P a → step a b = .ok a' → P a') {xs : List β} {a a' : α} (start : P a)
    (ok : xs.foldlM step a = .ok a') : P a' := by
  induction xs generalizing a with
  | nil =>
    cases ok
    exact start
  | cons b xs ih =>
    rw [List.foldlM_cons] at ok
    obtain ⟨next, stepped, ok⟩ := bind_eq_ok_iff.mp ok
    exact ih (keeps a b next start stepped) ok

/-- A fold whose steps succeed succeeds, and what the steps bring about for one element after the
other it brings about for all of them. -/
theorem exists_foldlM (step : α → β → Except ε α) {xs : List β} {a : α}
    (motive : List β → α → Prop) (distinct : xs.Nodup) (start : motive [] a)
    (next : ∀ done b a, b ∉ done → motive done a →
      ∃ a', step a b = .ok a' ∧ motive (done ++ [b]) a') :
    ∃ a', xs.foldlM step a = .ok a' ∧ motive xs a' := by
  have rest : ∀ (rest done : List β) (a : α), (done ++ rest).Nodup → motive done a →
      ∃ a', rest.foldlM step a = .ok a' ∧ motive (done ++ rest) a' := by
    intro rest
    induction rest with
    | nil =>
      intro done a _ so_far
      exact ⟨a, rfl, by rwa [List.append_nil]⟩
    | cons b rest ih =>
      intro done a distinct so_far
      have new : b ∉ done := fun known =>
        (List.nodup_append.mp distinct).2.2 b known b List.mem_cons_self rfl
      obtain ⟨a', stepped, after⟩ := next done b a new so_far
      obtain ⟨a'', ok, all⟩ := ih (done ++ [b]) a' (by simpa using distinct) after
      refine ⟨a'', ?_, by simpa using all⟩
      rw [List.foldlM_cons, stepped]
      exact ok
  exact rest xs [] a distinct start

/-- What the steps of a fold bring about for one element after the other it brings about for all. -/
theorem foldl_brings {step : α → β → α} {xs : List β} {a : α} (motive : List β → α → Prop)
    (distinct : xs.Nodup) (start : motive [] a)
    (next : ∀ done b a, b ∉ done → motive done a → motive (done ++ [b]) (step a b)) :
    motive xs (xs.foldl step a) := by
  obtain ⟨a', ok, all⟩ := exists_foldlM (ε := Unit) (fun a b => .ok (step a b)) motive
    distinct start fun done b a new so_far => ⟨_, rfl, next done b a new so_far⟩
  rw [show xs.foldlM (fun a b => (.ok (step a b) : Except Unit α)) a = .ok (xs.foldl step a) from
    List.foldlM_pure ..] at ok
  cases ok
  exact all

namespace Run

@[simp] theorem outcome_pure (a : α) : (pure a : Run ε α).outcome = .ok a := rfl

@[simp] theorem outcome_done (x : Except ε α) : (done x).outcome = x := rfl

@[simp] theorem outcome_fail (e : ε) : (fail e : Run ε α).outcome = .error e := rfl

@[simp] theorem outcome_ofExcept (x : Except ε α) : (ofExcept x).outcome = x := rfl

@[simp] theorem outcome_arith (x : Except Fault α) : (arith x).outcome = Failure.arith x := rfl

theorem outcome_arith_of_ok {x : Except Fault α} {a : α} (ok : x = .ok a) :
    (arith x).outcome = .ok a :=
  arith_eq_ok_iff.mpr ok

@[simp] theorem outcome_pause (point : Checkpoint) (cut : Timeout → ε) (next : Unit → Run ε α) :
    (pause point cut next).outcome = (next ()).outcome := rfl

theorem outcome_bind_of_ok {x : Run ε α} {a : α} (ok : x.outcome = .ok a) (f : α → Run ε β) :
    (x >>= f).outcome = (f a).outcome := by
  rw [outcome_bind, ok]
  rfl

theorem outcome_bind_of_error {x : Run ε α} {e : ε} (failed : x.outcome = .error e)
    (f : α → Run ε β) : (x >>= f).outcome = .error e := by
  rw [outcome_bind, failed]
  rfl

/-- What came of a sequence came of its second part on the result of the first. -/
theorem outcome_bind_eq_ok_iff {x : Run ε α} {f : α → Run ε β} {b : β} :
    (x >>= f).outcome = .ok b ↔ ∃ a, x.outcome = .ok a ∧ (f a).outcome = .ok b := by
  rw [outcome_bind]
  cases x.outcome with
  | ok a => simp [Except.bind]
  | error e => simp [Except.bind]

/-- Renamed failures show in the outcome. -/
theorem outcome_mapError {δ : Type} (f : ε → δ) (x : Run ε α) :
    (x.mapError f).outcome = x.outcome.mapError f := by
  induction x with
  | done result => cases result <;> rfl
  | pause point cut next ih => exact ih ()

/-- What follows arithmetic without a point shows in the outcome as a change of its result. -/
theorem outcome_arith_map (x : Except Fault α) (f : α → β) :
    (arith x >>= fun a => pure (f a)).outcome = (Failure.arith x).map f := by
  cases x <;> rfl

/-- A fold shows in the outcome as the fold of the outcomes of its steps. -/
theorem outcome_foldlM (step : α → β → Run ε α) (xs : List β) (a : α) :
    (xs.foldlM step a).outcome = xs.foldlM (fun a b => (step a b).outcome) a := by
  induction xs generalizing a with
  | nil => rfl
  | cons b xs ih =>
    rw [List.foldlM_cons, List.foldlM_cons, outcome_bind]
    exact congrArg _ (funext ih)

/-- A sequence whose parts both succeed succeeds. -/
theorem exists_outcome_bind {x : Run ε α} {f : α → Run ε β} (first : ∃ a, x.outcome = .ok a)
    (second : ∀ a, ∃ b, (f a).outcome = .ok b) : ∃ b, (x >>= f).outcome = .ok b := by
  obtain ⟨a, ok⟩ := first
  rw [outcome_bind_of_ok ok]
  exact second a

/-- A fold whose steps all succeed succeeds. -/
theorem exists_outcome_foldlM {step : α → β → Run ε α}
    (ok : ∀ a b, ∃ a', (step a b).outcome = .ok a') (xs : List β) (a : α) :
    ∃ a', (xs.foldlM step a).outcome = .ok a' := by
  induction xs generalizing a with
  | nil => exact ⟨a, rfl⟩
  | cons b xs ih =>
    rw [List.foldlM_cons]
    exact exists_outcome_bind (ok a b) ih

end Run

/-! ### Runs taken turn by turn -/

/-- One place is passed some turns after another. -/
def Turns {α : Type} (next : α → Option α) : α → α → Prop :=
  Relation.ReflTransGen fun p q => next p = some q

/-- Every place that is passed leads to the last one. -/
theorem Turns.ends {α : Type} {next : α → Option α} {first p last : α}
    (run : Turns next first last) (stops : next last = none) (passed : Turns next first p) :
    Turns next p last := by
  have one : Relator.RightUnique fun p q => next p = some q :=
    fun _ _ _ here there => Option.some.inj (here.symm.trans there)
  rcases Relation.ReflTransGen.total_of_right_unique one passed run with onward | back
  · exact onward
  · rcases back.cases_head with same | ⟨q, turn, _⟩
    · exact same ▸ .refl
    · rw [stops] at turn
      cases turn

end Optima
