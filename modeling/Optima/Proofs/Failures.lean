import Optima.Number.Basic
import Optima.Proofs.Run

/-!
What a computation can come to: values with a property, or failures of a kind (`Yields`). Sequences
and folds come to what their parts come to, so a list of the failures that can occur anywhere in an
algorithm is a list of the failures of the algorithm.

Of the operations on numbers the sums, differences and products fail in one way only, and on
integers not even in that (`Quantity.Mild`).
-/

namespace Optima

variable {ε α β : Type}

/-- A value with a property, or a failure that is allowed. -/
def Yields (post : α → Prop) (allowed : ε → Prop) : Except ε α → Prop
  | .ok a => post a
  | .error e => allowed e

/-- Any value, or a failure that is allowed. -/
abbrev FailsOnly (allowed : ε → Prop) (x : Except ε α) : Prop := Yields (fun _ => True) allowed x

section Yields

variable {post post' : α → Prop} {after : β → Prop} {allowed allowed' : ε → Prop} {x : Except ε α}

theorem Yields.mono (yields : Yields post allowed x) (weaker : ∀ a, post a → post' a)
    (more : ∀ e, allowed e → allowed' e) : Yields post' allowed' x := by
  cases x with
  | ok a => exact weaker a yields
  | error e => exact more e yields

theorem FailsOnly.imp (fails : FailsOnly allowed x) (more : ∀ e, allowed e → allowed' e) :
    FailsOnly allowed' x :=
  Yields.mono fails (fun _ => id) more

/-- What succeeds fails in no way. -/
theorem FailsOnly.of_ok (ok : ∃ a, x = .ok a) : FailsOnly allowed x := by
  obtain ⟨a, rfl⟩ := ok
  trivial

/-- A failure that occurs is one that is allowed. -/
theorem Yields.allowed_of_error (yields : Yields post allowed x) {e : ε} (failed : x = .error e) :
    allowed e := by
  subst failed
  exact yields

theorem Yields.bind {f : α → Except ε β} (first : Yields post allowed x)
    (second : ∀ a, post a → Yields after allowed (f a)) : Yields after allowed (x >>= f) := by
  cases x with
  | ok a => exact second a first
  | error e => exact first

/-- What every step of a fold keeps is kept by the fold, unless a step fails. -/
theorem Yields.foldlM {step : α → β → Except ε α} {xs : List β} {a : α} (start : post a)
    (next : ∀ a b, b ∈ xs → post a → Yields post allowed (step a b)) :
    Yields post allowed (xs.foldlM step a) := by
  induction xs generalizing a with
  | nil => exact start
  | cons b xs ih =>
    rw [List.foldlM_cons]
    exact (next a b List.mem_cons_self start).bind fun a' kept =>
      ih kept fun a'' c known => next a'' c (.tail b known)

theorem FailsOnly.foldlM {step : α → β → Except ε α} {xs : List β} {a : α}
    (next : ∀ a b, b ∈ xs → FailsOnly allowed (step a b)) :
    FailsOnly allowed (xs.foldlM step a) :=
  Yields.foldlM trivial fun a b known _ => next a b known

theorem FailsOnly.mapM {f : α → Except ε β} {xs : List α}
    (each : ∀ x ∈ xs, FailsOnly allowed (f x)) : FailsOnly allowed (xs.mapM f) := by
  induction xs with
  | nil => trivial
  | cons x xs ih =>
    rw [List.mapM_cons]
    exact (each x List.mem_cons_self).bind fun _ _ =>
      (ih fun y known => each y (.tail x known)).bind fun _ _ => trivial

theorem FailsOnly.filterM {f : α → Except ε Bool} {xs : List α}
    (each : ∀ x ∈ xs, FailsOnly allowed (f x)) : FailsOnly allowed (xs.filterM f) := by
  have aux (xs kept : List α) (each : ∀ x ∈ xs, FailsOnly allowed (f x)) :
      FailsOnly allowed (xs.filterAuxM f kept) := by
    induction xs generalizing kept with
    | nil => trivial
    | cons x xs ih =>
      exact (each x List.mem_cons_self).bind fun _ _ => ih _ fun y known => each y (.tail x known)
  exact (aux xs [] each).bind fun _ _ => trivial

/-- Faults of arithmetic as failures. -/
theorem Yields.arith {x : Except Fault α} {allowed : Failure → Prop}
    (yields : Yields post (fun fault => allowed (.fault fault)) x) :
    Yields post allowed (Failure.arith x) := by
  cases x with
  | ok a => exact yields
  | error fault => exact yields

theorem Yields.outcome_bind {x : Run ε α} {f : α → Run ε β} (first : Yields post allowed x.outcome)
    (second : ∀ a, post a → Yields after allowed (f a).outcome) :
    Yields after allowed (x >>= f).outcome := by
  rw [Run.outcome_bind]
  exact first.bind second

end Yields

/-! ### Operations on numbers -/

/-- The fault of an integer that is no double. -/
abbrev OnlyTooLarge (x : Except Fault α) : Prop := FailsOnly (· = .tooLarge) x

theorem OnlyTooLarge.arith {x : Except Fault α} {allowed : Failure → Prop} (only : OnlyTooLarge x)
    (large : allowed (.fault .tooLarge)) : FailsOnly allowed (Failure.arith x) :=
  Yields.arith (only.imp fun _ same => same ▸ large)

namespace Number

theorem toReal_onlyTooLarge (a : Number) : OnlyTooLarge a.toReal := by
  cases a with
  | int i =>
    rw [toReal]
    split
    · trivial
    · rfl
  | real x => trivial

theorem combine_onlyTooLarge (exact : Int → Int → Int) (rounded : Binary64 → Binary64 → Binary64)
    (a b : Number) : OnlyTooLarge (combine exact rounded a b) := by
  have mixed : OnlyTooLarge (do
      let x ← a.toReal
      let y ← b.toReal
      return .real (rounded x y) : Except Fault Number) :=
    (toReal_onlyTooLarge a).bind fun _ _ => (toReal_onlyTooLarge b).bind fun _ _ => trivial
  cases a with
  | int i =>
    cases b with
    | int j => trivial
    | real y => exact mixed
  | real x => exact mixed

end Number

/-- Quantities whose operations fail, if at all, because an integer is no double. -/
structure Quantity.Mild (α : Type) [Quantity α] : Prop where
  add (a b : α) : OnlyTooLarge (Quantity.add a b)
  sub (a b : α) : OnlyTooLarge (Quantity.sub a b)
  lowered (a : α) : OnlyTooLarge (Quantity.lowered a)

theorem Quantity.mild_int : Quantity.Mild Int where
  add _ _ := trivial
  sub _ _ := trivial
  lowered _ := trivial

theorem Quantity.mild_number : Quantity.Mild Number where
  add := Number.combine_onlyTooLarge _ _
  sub := Number.combine_onlyTooLarge _ _
  lowered a := (Number.combine_onlyTooLarge _ _ _ a).bind fun _ _ => trivial

end Optima
