import Optima.Failure

/-!
Computations that can be cut off. A solver does not see any limit: it only marks the points where it
may be stopped, and says what is left if it is (`Run.pause`). What a computation gives when nobody
stops it is `Run.outcome`; how limits act on one is the matter of `Optima.Limits`.

There are two kinds of points. A `check` looks at every limit; a `tick` counts as a step, and only
every so-many-th of them looks at the clock.
-/

namespace Optima

/-- The two kinds of points at which a computation may be stopped. -/
inductive Checkpoint where
  | check
  | tick
  deriving DecidableEq, Repr

/-- A computation with points where it may be stopped. -/
inductive Run (ε α : Type) where
  | done (result : Except ε α)
  | pause (point : Checkpoint) (cut : Timeout → ε) (next : Unit → Run ε α)

namespace Run

variable {ε δ α β : Type}

/-- First one computation, then another that depends on its result. -/
protected def bind : Run ε α → (α → Run ε β) → Run ε β
  | .done (.ok a), f => f a
  | .done (.error e), _ => .done (.error e)
  | .pause point cut next, f => .pause point cut fun u => (next u).bind f

instance : Monad (Run ε) where
  pure a := .done (.ok a)
  bind := Run.bind

/-- A computation that fails. -/
def fail (e : ε) : Run ε α := .done (.error e)

/-- The result of a computation without points. -/
def ofExcept (x : Except ε α) : Run ε α := .done x

/-- The result of arithmetic. -/
def arith (x : Except Fault α) : Run Failure α := .done (Failure.arith x)

/-- A point that looks at every limit. -/
def check : Run Failure Unit := .pause .check .timeout fun _ => pure ()

/-- A point that counts a step. -/
def tick : Run Failure Unit := .pause .tick .timeout fun _ => pure ()

/-- The same computation with its failures renamed. -/
def mapError (f : ε → δ) : Run ε α → Run δ α
  | .done (.ok a) => .done (.ok a)
  | .done (.error e) => .done (.error (f e))
  | .pause point cut next => .pause point (fun t => f (cut t)) fun u => (next u).mapError f

/-- What the computation gives if nobody stops it. -/
def outcome : Run ε α → Except ε α
  | .done result => result
  | .pause _ _ next => (next ()).outcome

/-- How many points it passes if nobody stops it. -/
def length : Run ε α → Nat
  | .done _ => 0
  | .pause _ _ next => (next ()).length + 1

/-! ### Laws -/

theorem bind_pure (x : Run ε α) : x.bind (fun a => .done (.ok a)) = x := by
  induction x with
  | done result => cases result <;> rfl
  | pause point cut next ih => simp only [Run.bind, ih]

theorem bind_assoc {γ : Type} (x : Run ε α) (f : α → Run ε β) (g : β → Run ε γ) :
    (x.bind f).bind g = x.bind fun a => (f a).bind g := by
  induction x with
  | done result => cases result <;> rfl
  | pause point cut next ih => simp only [Run.bind, ih]

instance : LawfulMonad (Run ε) := LawfulMonad.mk' (Run ε)
  bind_pure (fun _ _ => rfl) bind_assoc

/-- Sequencing shows in the outcome as sequencing. -/
theorem outcome_bind (x : Run ε α) (f : α → Run ε β) :
    (x >>= f).outcome = x.outcome.bind fun a => (f a).outcome := by
  show (x.bind f).outcome = _
  induction x with
  | done result => cases result <;> rfl
  | pause point cut next ih => exact ih ()

@[simp] theorem outcome_check : check.outcome = .ok () := rfl

@[simp] theorem outcome_tick : tick.outcome = .ok () := rfl

end Run

end Optima
