import Optima.Limits
import Optima.Proofs.Run

/-!
What limits do to a computation. At each of its points a computation may be cut off, and what it
then fails with names the reason (`Run.Interruptible`); this passes to every computation that is
built from such parts. Under limits an interruptible computation gives what it gives without them,
or fails for one of the reasons to stop: limits never change a result
(`Run.supervise_outcome_or_cut`).

Without anything to look at but the number of points, it depends on that number alone which of the
two happens (`Run.supervise_counting`).
-/

namespace Optima

variable {ε α β : Type}

namespace Run

/-- Wherever the computation is cut off, its failure is read as the reason for it. -/
inductive Interruptible (read : ε → Failure) : Run ε α → Prop where
  | done (result : Except ε α) : Interruptible read (.done result)
  | pause {point : Checkpoint} {cut : Timeout → ε} {next : Unit → Run ε α}
      (named : ∀ reason, read (cut reason) = .timeout reason)
      (later : Interruptible read (next ())) : Interruptible read (.pause point cut next)

namespace Interruptible

variable {read : ε → Failure}

theorem pure (a : α) : Interruptible read (Pure.pure a : Run ε α) := done _

theorem fail (e : ε) : Interruptible read (Run.fail e : Run ε α) := done _

theorem ofExcept (x : Except ε α) : Interruptible read (Run.ofExcept x) := done _

theorem arith (x : Except Fault α) : Interruptible id (Run.arith x) := done _

theorem check : Interruptible id Run.check := .pause (fun _ => rfl) (.pure ())

theorem tick : Interruptible id Run.tick := .pause (fun _ => rfl) (.pure ())

/-- Sequencing adds no points. -/
theorem bind {x : Run ε α} {f : α → Run ε β} (first : Interruptible read x)
    (second : ∀ a, Interruptible read (f a)) : Interruptible read (x >>= f) := by
  induction first with
  | done result =>
    cases result with
    | ok a => exact second a
    | error e => exact done (.error e)
  | pause named _ ih => exact .pause named ih

/-- What follows without a point changes nothing about the points. -/
theorem map {x : Run ε α} (f : α → β) (first : Interruptible read x) :
    Interruptible read (f <$> x) := by
  rw [← bind_pure_comp]
  exact first.bind fun a => .pure (f a)

/-- A choice between two computations has the points of one of them. -/
theorem ite {c : Prop} [Decidable c] {x y : Run ε α} (yes : Interruptible read x)
    (no : Interruptible read y) : Interruptible read (if c then x else y) := by
  split
  · exact yes
  · exact no

/-- A fold has the points of its steps. -/
theorem foldlM {step : α → β → Run ε α} (each : ∀ a b, Interruptible read (step a b))
    (xs : List β) (a : α) : Interruptible read (xs.foldlM step a) := by
  induction xs generalizing a with
  | nil => exact .pure a
  | cons b xs ih =>
    rw [List.foldlM_cons]
    exact (each a b).bind fun a' => ih a'

/-- What is done with each element of a list has the points of its parts. -/
theorem mapM {f : α → Run ε β} (each : ∀ a, Interruptible read (f a)) (xs : List α) :
    Interruptible read (xs.mapM f) := by
  induction xs with
  | nil => exact .pure []
  | cons a xs ih =>
    rw [List.mapM_cons]
    exact (each a).bind fun b => ih.bind fun bs => .pure (b :: bs)

/-- Failures may be renamed to what they are read as. -/
theorem mapError {x : Run ε α} (cut : Interruptible read x) :
    Interruptible id (x.mapError read) := by
  induction cut with
  | done result => cases result <;> exact done _
  | pause named _ ih => exact .pause named ih

end Interruptible

/-! ### Supervision -/

/-- Under limits an interruptible computation gives what it gives without them, or is cut off. -/
theorem supervise_outcome_or_cut {read : ε → Failure} {x : Run ε α}
    (cut : Interruptible read x) (limits : Limits) (signals : Nat → Signal) (m : Meter) :
    x.supervise limits signals m = x.outcome ∨
      ∃ e reason, x.supervise limits signals m = .error e ∧ read e = .timeout reason := by
  induction cut generalizing m with
  | done result => exact .inl rfl
  | @pause point cut next named _ ih =>
    rw [supervise, outcome_pause]
    match passed : limits.pass (signals m.iterations) point m with
    | (m', none) => exact ih m'
    | (_, some reason) => exact .inr ⟨cut reason, reason, rfl, named reason⟩

/-- Whatever failures are called, the same points are passed. -/
theorem supervise_mapError {δ : Type} (f : ε → δ) (x : Run ε α) (limits : Limits)
    (signals : Nat → Signal) (m : Meter) :
    (x.mapError f).supervise limits signals m = (x.supervise limits signals m).mapError f := by
  induction x generalizing m with
  | done result => cases result <;> rfl
  | pause point cut next ih =>
    rw [Run.mapError, supervise, supervise]
    match limits.pass (signals m.iterations) point m with
    | (m', none) => exact ih () m'
    | (_, some reason) => rfl

end Run

/-- Nothing is ever cancelled. -/
def Signal.Quiet (signals : Nat → Signal) : Prop := ∀ k, (signals k).cancelled = false

namespace Limits

/-- The limits name no time, so the clock does not matter. -/
def Counting (limits : Limits) : Prop := limits.timeLimit = .none

/-- Without a time limit and without cancellation there is nothing to see at a point. -/
theorem look_eq_none {limits : Limits} (counting : limits.Counting) {signal : Signal}
    (quiet : signal.cancelled = false) : limits.look signal = .none := by
  simp only [Counting] at counting
  simp [look, quiet, counting]

section Point

variable {limits : Limits} {signal : Signal} {point : Checkpoint} {m : Meter}

/-- A point beyond the iteration limit stops a computation, whatever there is to see. -/
theorem pass_beyond {limit : Number}
    (beyond : limits.iterationLimit.filter (·.less (.int ↑(m.iterations + 1))) = some limit) :
    limits.pass signal point m = (⟨m.iterations + 1, m.ticks⟩, some (.iterationLimit limit)) := by
  simp only [pass, beyond]

/-- Within the iteration limit a check shows what there is to see. -/
theorem pass_check
    (within : limits.iterationLimit.filter (·.less (.int ↑(m.iterations + 1))) = .none) :
    limits.pass signal .check m = (⟨m.iterations + 1, m.ticks⟩, limits.look signal) := by
  simp only [pass, within]

/-- A tick shows it only when it completes an interval. -/
theorem pass_tick
    (within : limits.iterationLimit.filter (·.less (.int ↑(m.iterations + 1))) = .none) :
    limits.pass signal .tick m =
      if limits.interval ≤ m.ticks + 1 then (⟨m.iterations + 1, 0⟩, limits.look signal)
      else (⟨m.iterations + 1, m.ticks + 1⟩, .none) := by
  simp only [pass, within]

/-- A point passed where there is nothing to see: it is counted, and nothing stops a computation
within its iteration limit. -/
theorem pass_unseen (unseen : limits.look signal = .none) (point : Checkpoint) (m : Meter) :
    ∃ m' : Meter, m'.iterations = m.iterations + 1 ∧
      limits.pass signal point m =
        (m', (limits.iterationLimit.filter (·.less (.int ↑(m.iterations + 1)))).map
          .iterationLimit) := by
  cases within : limits.iterationLimit.filter (·.less (.int ↑(m.iterations + 1))) with
  | some limit => exact ⟨_, rfl, pass_beyond within⟩
  | none =>
    cases point with
    | check => exact ⟨_, rfl, unseen ▸ pass_check within⟩
    | tick =>
      rw [pass_tick within, unseen]
      split
      · exact ⟨_, rfl, rfl⟩
      · exact ⟨_, rfl, rfl⟩

end Point

end Limits

namespace Run

/-- Without a limit of any kind a computation gives its outcome. -/
theorem supervise_unlimited {limits : Limits} (counting : limits.Counting)
    (uncounted : limits.iterationLimit = none) {signals : Nat → Signal}
    (quiet : Signal.Quiet signals) (x : Run ε α) (m : Meter) :
    x.supervise limits signals m = x.outcome := by
  induction x generalizing m with
  | done result => rfl
  | pause point cut next ih =>
    obtain ⟨m', _, passed⟩ :=
      Limits.pass_unseen (Limits.look_eq_none counting (quiet m.iterations)) point m
    rw [supervise, passed, uncounted, outcome_pause]
    exact ih () m'

/-- Where nothing but the points is counted, a computation that has no more of them than are left
gives its outcome, and any other is cut off by the iteration limit. -/
theorem supervise_counting {read : ε → Failure} {x : Run ε α} (cut : Interruptible read x)
    {limits : Limits} (counting : limits.Counting) {limit : Nat}
    (counted : limits.iterationLimit = some (.int limit)) {signals : Nat → Signal}
    (quiet : Signal.Quiet signals) (m : Meter) (within : m.iterations ≤ limit) :
    (m.iterations + x.length ≤ limit → x.supervise limits signals m = x.outcome) ∧
      (limit < m.iterations + x.length → ∃ e, x.supervise limits signals m = .error e ∧
        read e = .timeout (.iterationLimit (.int limit))) := by
  induction cut generalizing m with
  | done result => exact ⟨fun _ => rfl, fun beyond => absurd within (Nat.not_le.mpr beyond)⟩
  | @pause point cut next named _ ih =>
    obtain ⟨m', moved, passed⟩ :=
      Limits.pass_unseen (Limits.look_eq_none counting (quiet m.iterations)) point m
    rw [supervise, passed, counted, outcome_pause, length]
    by_cases spent : limit < m.iterations + 1
    · -- this very point is one too many
      have stops : Number.less (.int limit) (.int ↑(m.iterations + 1)) = true := by
        simp only [Number.less, decide_eq_true_eq]
        omega
      rw [Option.filter_some, if_pos stops]
      exact ⟨fun enough => absurd enough (by omega), fun _ => ⟨_, rfl, named _⟩⟩
    · have goes : ¬ Number.less (.int limit) (.int ↑(m.iterations + 1)) = true := by
        simp only [Number.less, decide_eq_true_eq]
        omega
      rw [Option.filter_some, if_neg goes]
      obtain ⟨enough, short⟩ := ih m' (by omega)
      rw [show m.iterations + ((next ()).length + 1) = m'.iterations + (next ()).length by omega]
      exact ⟨enough, short⟩

end Run

end Optima
