import Optima.Run

/-!
Limits on a computation: a time limit, a limit on the number of steps, and cancellation from
outside. Every point of a computation counts as one step, and going beyond the iteration limit stops
it at once. Cancellation and the clock are looked at on every `check`, and on every `interval`-th
`tick`; a `check` neither counts as a tick nor starts the count of ticks afresh. Of several reasons
to stop, the iteration limit is reported before cancellation, and cancellation before the clock.

The clock and the cancellation are not part of the limits. They are what the outside shows at each
point (`Signal`), and `supervise` takes them as a function of the number of the point.
-/

namespace Optima

/-- Limits on a computation. -/
structure Limits where
  timeLimit : Option Number
  iterationLimit : Option Number
  /-- How many ticks lie between two looks at the clock. -/
  interval : Nat
  interval_pos : 0 < interval

/-- What the outside shows at a point. -/
structure Signal where
  expired : Bool
  cancelled : Bool
  deriving DecidableEq, Repr

/-- How far a computation has come: all points passed, and the ticks since the last look at the
clock. -/
structure Meter where
  iterations : Nat
  ticks : Nat
  deriving DecidableEq, Repr

namespace Meter

/-- Before the first point. -/
def start : Meter := ⟨0, 0⟩

end Meter

namespace Limits

/-- No limits at all. -/
def none : Limits := ⟨.none, .none, 1, Nat.one_pos⟩

/-- Limits from their parts. A time limit has to be within the range of doubles, as it is added to
a time; an interval is at least one. -/
def of (timeLimit : Option Number) (iterationLimit : Option Number) (interval : Int) :
    Except Fault Limits := do
  if let some limit := timeLimit then
    let _ ← limit.toReal
  return ⟨timeLimit, iterationLimit, max 1 interval.toNat, Nat.lt_of_lt_of_le Nat.one_pos (Nat.le_max_left ..)⟩

/-- The time limit is one that has passed as soon as the computation begins. -/
def expired (limits : Limits) : Bool :=
  match limits.timeLimit with
  | some limit => limit.atMost (.int 0)
  | .none => false

/-- The time that is left when the computation begins; there is none of it without a limit, and
nothing left of a limit that is not above zero. -/
def timeLeft (limits : Limits) : Option Binary64 :=
  match limits.timeLimit with
  | some limit => match limit.toReal with
    | .ok x => some (if Binary64.zero.less x then x else Binary64.zero)
    | .error _ => some Binary64.zero
  | .none => .none

/-- What the outside reports against the clock and the cancellation. -/
def look (limits : Limits) (signal : Signal) : Option Timeout :=
  if signal.cancelled then some .cancelled
  else if signal.expired then limits.timeLimit.map .elapsed
  else .none

/-- Passes one point: the meter moves on, and there may be a reason to stop. -/
def pass (limits : Limits) (signal : Signal) (point : Checkpoint) (m : Meter) :
    Meter × Option Timeout :=
  let counted := { m with iterations := m.iterations + 1 }
  match limits.iterationLimit.filter (·.less (.int counted.iterations)) with
  | some limit => (counted, some (.iterationLimit limit))
  | .none => match point with
    | .check => (counted, limits.look signal)
    | .tick =>
        if limits.interval ≤ m.ticks + 1 then ({ counted with ticks := 0 }, limits.look signal)
        else ({ counted with ticks := m.ticks + 1 }, .none)

end Limits

/-- A computation under limits, with the signals that the outside shows at its points, counted
from zero. -/
def Run.supervise {ε α : Type} (limits : Limits) (signals : Nat → Signal) :
    Meter → Run ε α → Except ε α
  | _, .done result => result
  | m, .pause point cut next =>
      match limits.pass (signals m.iterations) point m with
      | (m', .none) => (next ()).supervise limits signals m'
      | (_, some reason) => .error (cut reason)

end Optima
