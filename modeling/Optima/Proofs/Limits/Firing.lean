import Mathlib.Order.Bounds.Basic
import Optima.Proofs.Limits

/-!
At which point limits act. Checks and ticks are passed in any order on one meter that starts afresh
(`Limits.verdicts`). Limits look at the outside on every check, and on every tick whose number is a
multiple of the interval, however many checks there are between the ticks (`Watched`). So the first
point that stops a computation is the earliest at which they see something or that is beyond the
iteration limit, whatever the outside shows when (`stopsFirst_of_isLeast`); `Passed.pass` is what
one point does to the meter, and the runs follow by induction on the number of the point.

While the time is over throughout, or the computation is cancelled throughout, this is the first
check, the tick that completes the first interval, or the first point beyond the iteration limit;
with nothing to see it is the last of these alone (`acts_first`). A computation ends at the point
that stops it, and so do these statements: they say nothing about points that come after it.
-/

namespace Optima

namespace Limits

/-- What each of some points comes to on one meter: a reason to stop, or none. -/
def verdicts (limits : Limits) (signals : Nat → Signal) :
    Meter → List Checkpoint → List (Option Timeout)
  | _, [] => []
  | m, point :: rest =>
      let (m', verdict) := limits.pass (signals m.iterations) point m
      verdict :: verdicts limits signals m' rest

/-- The first of some points that stops a computation, and why; those before it are passed. -/
structure StopsFirst (verdicts : List (Option Timeout)) (i : Nat) (reason : Timeout) : Prop where
  passed : ∀ j < i, verdicts[j]? = some .none
  stopped : verdicts[i]? = some (some reason)

/-- A point at which limits look at the outside. -/
inductive Watched (limits : Limits) (points : List Checkpoint) (i : Nat) : Prop where
  | check : points[i]? = some .check → Watched limits points i
  | tick : points[i]? = some .tick → limits.interval ∣ (points.take (i + 1)).count .tick →
      Watched limits points i

/-- The number of the point is that of the iteration limit. Points are numbered from zero, so it is
the first beyond the limit; a limit below zero is passed by the very first point, like a limit of
zero. -/
def Beyond (limit : Option Int) (i : Nat) : Prop := ∃ L ∈ limit, L.toNat = i

/-- The reason given at a point: the iteration limit before cancellation, and cancellation before
the time. -/
inductive Cause (limits : Limits) (limit : Option Int) (signal : Signal) (i : Nat) :
    Timeout → Prop where
  | beyond {L : Int} : limit = some L → L.toNat = i →
      Cause limits limit signal i (.iterationLimit (.int L))
  | cancelled : ¬ Beyond limit i → signal.cancelled = true → Cause limits limit signal i .cancelled
  | elapsed {time : Number} : ¬ Beyond limit i → signal.cancelled = false →
      limits.timeLimit = some time → signal.expired = true →
      Cause limits limit signal i (.elapsed time)

variable {limits : Limits} {limit : Option Int} {signals : Nat → Signal}
  {points : List Checkpoint} {point : Checkpoint} {i : Nat} {m : Meter} {reason : Timeout}

/-- What is seen is the reason given within the iteration limit. -/
theorem cause_of_look {signal : Signal} (seen : limits.look signal = some reason)
    (within : ¬ Beyond limit i) : Cause limits limit signal i reason := by
  unfold look at seen
  split at seen
  · next cancelled =>
    cases seen
    exact .cancelled within cancelled
  · next going =>
    split at seen
    · next expired =>
      obtain ⟨time, timeLimit, rfl⟩ := Option.map_eq_some_iff.mp seen
      exact .elapsed within (Bool.not_eq_true _ ▸ going) timeLimit expired
    · cases seen

/-! ### One point -/

/-- The meter after some of a number of points, none of which stopped the computation. -/
structure Passed (limits : Limits) (limit : Option Int) (points : List Checkpoint) (i : Nat)
    (m : Meter) : Prop where
  iterations : m.iterations = i
  ticks : m.ticks = (points.take i).count .tick % limits.interval
  within : ∀ L ∈ limit, i ≤ L.toNat

theorem passed_start : Passed limits limit points 0 Meter.start :=
  ⟨rfl, (Nat.zero_mod _).symm, fun _ _ => Nat.zero_le _⟩

/-- The iteration limit stops the point that has its number, and none before. -/
theorem Passed.filter_limit (inv : Passed limits limit points i m)
    (counted : limits.iterationLimit = limit.map .int) :
    limits.iterationLimit.filter (·.less (.int ↑(m.iterations + 1))) =
      (limit.filter fun L => L.toNat = i).map .int := by
  rw [counted]
  cases limit with
  | none => rfl
  | some L =>
    have within := inv.within L rfl
    have same : Number.less (.int L) (.int ↑(m.iterations + 1)) = decide (L.toNat = i) := by
      rw [Bool.eq_iff_iff]
      simp only [Number.less, decide_eq_true_eq, inv.iterations]
      omega
    simp only [Option.map_some, Option.filter_some, same]
    split <;> rfl

theorem count_tick_take (here : points[i]? = some point) :
    (points.take (i + 1)).count .tick =
      (points.take i).count .tick + if point = .tick then 1 else 0 := by
  rw [List.take_add_one, here, Option.toList_some, List.count_append, List.count_singleton]
  cases point <;> rfl

/-- Counting on, the remainder of an interval begins again at zero. -/
theorem succ_mod {k : Nat} (pos : 0 < k) (c : Nat) :
    (c + 1) % k = if k ≤ c % k + 1 then 0 else c % k + 1 := by
  have small := Nat.mod_lt c pos
  have parts : c + 1 = k * (c / k) + (c % k + 1) := by
    have := Nat.div_add_mod c k
    omega
  rw [parts, Nat.mul_add_mod]
  split
  · next last => rw [show c % k + 1 = k by omega, Nat.mod_self]
  · next more => exact Nat.mod_eq_of_lt (Nat.lt_of_not_le more)

theorem dvd_succ_iff {k : Nat} (pos : 0 < k) (c : Nat) : k ∣ c + 1 ↔ k ≤ c % k + 1 := by
  rw [Nat.dvd_iff_mod_eq_zero, succ_mod pos]
  split
  · next last => exact iff_of_true rfl last
  · next more => exact iff_of_false (Nat.succ_ne_zero _) more

theorem Passed.watched_iff (inv : Passed limits limit points i m)
    (here : points[i]? = some point) :
    Watched limits points i ↔ point = .check ∨ limits.interval ≤ m.ticks + 1 := by
  have complete := dvd_succ_iff limits.interval_pos ((points.take i).count .tick)
  rw [← inv.ticks] at complete
  have count := count_tick_take here
  constructor
  · rintro (check | ⟨tick, divides⟩)
    · rw [here] at check
      exact .inl (Option.some.inj check)
    · rw [here] at tick
      cases tick
      rw [count, if_pos rfl] at divides
      exact .inr (complete.mp divides)
  · intro seen
    cases point with
    | check => exact .check here
    | tick =>
      refine .tick here ?_
      rw [count, if_pos rfl]
      exact complete.mpr (seen.resolve_left nofun)

/-- A point with the number of the iteration limit stops the computation. Any other shows what there
is to see if it is watched, and if that is nothing, the next point can be passed. -/
theorem Passed.pass (inv : Passed limits limit points i m)
    (counted : limits.iterationLimit = limit.map .int) (signal : Signal)
    (here : points[i]? = some point) :
    (∀ L ∈ limit, L.toNat = i →
      (limits.pass signal point m).2 = some (.iterationLimit (.int L))) ∧
    (¬ Beyond limit i →
      (Watched limits points i → (limits.pass signal point m).2 = limits.look signal) ∧
      (¬ Watched limits points i → (limits.pass signal point m).2 = .none) ∧
      Passed limits limit points (i + 1) (limits.pass signal point m).1) := by
  have spent := inv.filter_limit counted
  rw [inv.watched_iff here]
  constructor
  · rintro L rfl number
    rw [Option.filter_some, if_pos (decide_eq_true number)] at spent
    rw [pass_beyond spent]
  · intro inside
    have goes : (limit.filter fun L => L.toNat = i).map Number.int = .none := by
      rw [Option.map_eq_none_iff, Option.filter_eq_none_iff]
      exact fun L counted number => inside ⟨L, counted, of_decide_eq_true number⟩
    have within : ∀ L ∈ limit, i + 1 ≤ L.toNat := fun L counted =>
      Nat.lt_of_le_of_ne (inv.within L counted) fun number => inside ⟨L, counted, number.symm⟩
    have iterations : m.iterations + 1 = i + 1 := congrArg (· + 1) inv.iterations
    have count := count_tick_take here
    rw [goes] at spent
    cases point with
    | check =>
      rw [pass_check spent]
      refine ⟨fun _ => rfl, fun unwatched => absurd (.inl rfl) unwatched, iterations, ?_, within⟩
      rw [count, if_neg nofun]
      exact inv.ticks
    | tick =>
      rw [if_pos rfl] at count
      have ticks := succ_mod limits.interval_pos ((points.take i).count .tick)
      rw [← count, ← inv.ticks] at ticks
      rw [pass_tick spent]
      by_cases last : limits.interval ≤ m.ticks + 1
      · rw [if_pos last] at ticks ⊢
        exact ⟨fun _ => rfl, fun unwatched => absurd (.inr last) unwatched, iterations, ticks.symm,
          within⟩
      · rw [if_neg last] at ticks ⊢
        exact ⟨fun watched => absurd (watched.resolve_left nofun) last, fun _ => rfl, iterations,
          ticks.symm, within⟩

/-! ### Runs -/

/-- A point that stops a computation that came so far: it is beyond the iteration limit, or there is
something to see. -/
def Stops (limits : Limits) (limit : Option Int) (signals : Nat → Signal)
    (points : List Checkpoint) (i : Nat) : Prop :=
  i < points.length ∧
    (Beyond limit i ∨ Watched limits points i ∧ (limits.look (signals i)).isSome)

/-- Points that do not stop a computation are passed, one after the other. -/
theorem exists_passed (counted : limits.iterationLimit = limit.map .int) (signals : Nat → Signal)
    (i : Nat) (inside : i ≤ points.length) (goes : ∀ j < i, ¬ Stops limits limit signals points j) :
    ∃ m, Passed limits limit points i m ∧ limits.verdicts signals Meter.start points =
      List.replicate i .none ++ limits.verdicts signals m (points.drop i) := by
  induction i with
  | zero => exact ⟨Meter.start, passed_start, rfl⟩
  | succ i ih =>
    obtain ⟨m, inv, so_far⟩ :=
      ih (Nat.le_of_succ_le inside) fun j before => goes j (Nat.lt_succ_of_lt before)
    have here : points[i]? = some points[i] := List.getElem?_eq_getElem inside
    have going := goes i (Nat.lt_succ_self i)
    have within : ¬ Beyond limit i := fun beyond => going ⟨inside, .inl beyond⟩
    obtain ⟨watched, unwatched, inv'⟩ := (inv.pass counted (signals i) here).2 within
    have passed : (limits.pass (signals i) points[i] m).2 = .none := by
      by_cases looks : Watched limits points i
      · rw [watched looks, ← Option.not_isSome_iff_eq_none]
        exact fun seen => going ⟨inside, .inr ⟨looks, seen⟩⟩
      · exact unwatched looks
    refine ⟨_, inv', ?_⟩
    rw [so_far, List.drop_eq_getElem_cons inside, verdicts, inv.iterations, List.replicate_succ',
      List.append_assoc, ← passed]
    rfl

/-- If no point stops a computation, all are passed. -/
theorem forall_passed (counted : limits.iterationLimit = limit.map .int) (signals : Nat → Signal)
    (goes : ∀ i, ¬ Stops limits limit signals points i) :
    ∀ verdict ∈ limits.verdicts signals Meter.start points, verdict = .none := by
  obtain ⟨m, _, verdicts_eq⟩ := exists_passed counted signals points.length le_rfl
    fun j _ => goes j
  rw [verdicts_eq, List.drop_length, verdicts, List.append_nil]
  exact fun verdict member => List.eq_of_mem_replicate member

/-- The first point that stops a computation, and why. -/
theorem stopsFirst_of_isLeast (counted : limits.iterationLimit = limit.map .int)
    (least : IsLeast {i | Stops limits limit signals points i} i) :
    ∃ reason, StopsFirst (limits.verdicts signals Meter.start points) i reason ∧
      Cause limits limit (signals i) i reason := by
  obtain ⟨inside, stops⟩ := least.1
  have here : points[i]? = some points[i] := List.getElem?_eq_getElem inside
  obtain ⟨m, inv, verdicts_eq⟩ := exists_passed counted signals i inside.le
    fun j before stops => absurd (least.2 stops) (Nat.not_le.mpr before)
  obtain ⟨beyond, within⟩ := inv.pass counted (signals i) here
  obtain ⟨reason, stopped, cause⟩ : ∃ reason,
      (limits.pass (signals i) points[i] m).2 = some reason ∧
        Cause limits limit (signals i) i reason := by
    by_cases last : Beyond limit i
    · obtain ⟨L, given, number⟩ := last
      exact ⟨_, beyond L given number, .beyond given number⟩
    · obtain ⟨watched, seen⟩ := stops.resolve_left last
      obtain ⟨reason, seen⟩ := Option.isSome_iff_exists.mp seen
      exact ⟨reason, ((within last).1 watched).trans seen, cause_of_look seen last⟩
  refine ⟨reason, ⟨fun j before => ?_, ?_⟩, cause⟩
  · rw [verdicts_eq, List.getElem?_append_left (by simpa using before), List.getElem?_replicate,
      if_pos before]
  · rw [verdicts_eq, List.getElem?_append_right (by simp), List.length_replicate, Nat.sub_self,
      List.drop_eq_getElem_cons inside, verdicts, inv.iterations]
    exact congrArg some stopped

/-! ### Under pressure and without -/

/-- The time is over at every point, or the computation is cancelled at every point. -/
def Pressed (limits : Limits) (signals : Nat → Signal) : Prop :=
  (limits.timeLimit.isSome ∧ ∀ i, (signals i).expired = true) ∨ ∀ i, (signals i).cancelled = true

/-- At no point is the time over or the computation cancelled. -/
def Unpressed (limits : Limits) (signals : Nat → Signal) : Prop :=
  Signal.Quiet signals ∧ (limits.timeLimit = .none ∨ ∀ i, (signals i).expired = false)

/-- A point at which limits act under pressure: a check, the tick that completes the first interval,
or the first point beyond the iteration limit. -/
inductive Due (limits : Limits) (limit : Option Int) (points : List Checkpoint) (i : Nat) :
    Prop where
  | check : points[i]? = some .check → Due limits limit points i
  | interval : points[i]? = some .tick →
      (points.take (i + 1)).count .tick = limits.interval → Due limits limit points i
  | beyond : i < points.length → Beyond limit i → Due limits limit points i

theorem Pressed.isSome_look (pressed : limits.Pressed signals) (i : Nat) :
    (limits.look (signals i)).isSome := by
  unfold look
  split
  · rfl
  · next going =>
    obtain ⟨timed, expired⟩ := pressed.resolve_right fun all => going (all i)
    rw [if_pos (expired i), Option.isSome_map]
    exact timed

theorem Unpressed.look_eq_none (unpressed : limits.Unpressed signals) (i : Nat) :
    limits.look (signals i) = .none := by
  obtain ⟨quiet, untimed | early⟩ := unpressed
  · exact Limits.look_eq_none untimed (quiet i)
  · simp [look, quiet i, early i]

/-- Ticks are counted one by one, so some tick has each number up to the last. -/
theorem exists_tick {k : Nat} (pos : 0 < k) (j : Nat) (le : k ≤ (points.take j).count .tick) :
    ∃ i < j, points[i]? = some .tick ∧ (points.take (i + 1)).count .tick = k := by
  induction j with
  | zero => exact absurd (pos.trans_le le) (Nat.lt_irrefl _)
  | succ j ih =>
    by_cases earlier : k ≤ (points.take j).count .tick
    · obtain ⟨i, before, tick, count⟩ := ih earlier
      exact ⟨i, Nat.lt_succ_of_lt before, tick, count⟩
    · cases here : points[j]? with
      | none =>
        rw [List.take_add_one, here, Option.toList_none, List.append_nil] at le
        exact absurd le earlier
      | some point =>
        have count := count_tick_take here
        split at count
        · next tick => exact ⟨j, Nat.lt_succ_self j, tick ▸ here, by omega⟩
        · omega

/-- Under pressure limits act where they are due to. -/
theorem Pressed.stops_of_due (pressed : limits.Pressed signals)
    (due : Due limits limit points i) : Stops limits limit signals points i := by
  rcases due with check | ⟨tick, complete⟩ | ⟨inside, beyond⟩
  · exact ⟨(List.getElem?_eq_some_iff.mp check).1, .inr ⟨.check check, pressed.isSome_look i⟩⟩
  · exact ⟨(List.getElem?_eq_some_iff.mp tick).1,
      .inr ⟨.tick tick (complete ▸ Nat.dvd_refl _), pressed.isSome_look i⟩⟩
  · exact ⟨inside, .inl beyond⟩

/-- They do not act anywhere without having been due. -/
theorem Stops.exists_due {j : Nat} (stops : Stops limits limit signals points j) :
    ∃ i ≤ j, Due limits limit points i := by
  obtain ⟨inside, beyond | ⟨check | ⟨tick, divides⟩, _⟩⟩ := stops
  · exact ⟨j, le_rfl, .beyond inside beyond⟩
  · exact ⟨j, le_rfl, .check check⟩
  · have some_ : 0 < (points.take (j + 1)).count .tick := by
      rw [count_tick_take tick, if_pos rfl]
      exact Nat.succ_pos _
    obtain ⟨i, before, tick, count⟩ :=
      exists_tick limits.interval_pos (j + 1) (Nat.le_of_dvd some_ divides)
    exact ⟨i, Nat.le_of_lt_succ before, .interval tick count⟩

/-- With nothing to see, only the iteration limit stops a computation. -/
theorem Unpressed.stops_iff (unpressed : limits.Unpressed signals) :
    Stops limits limit signals points i ↔ i < points.length ∧ Beyond limit i := by
  rw [Stops, unpressed.look_eq_none]
  simp

/-- When limits act, on any checks and ticks. Under pressure it is the earliest point that is due,
and it gives its cause; otherwise it is the one with the number of the iteration limit. The points
before it are passed, and if there is no such point, all are. -/
theorem acts_first (limits : Limits) (limit : Option Int)
    (counted : limits.iterationLimit = limit.map .int) (signals : Nat → Signal)
    (points : List Checkpoint) :
    (limits.Pressed signals →
      (∀ i, IsLeast {i | Due limits limit points i} i → ∃ reason,
        StopsFirst (limits.verdicts signals Meter.start points) i reason ∧
          Cause limits limit (signals i) i reason) ∧
      ((∀ i, ¬ Due limits limit points i) →
        ∀ verdict ∈ limits.verdicts signals Meter.start points, verdict = .none)) ∧
    (limits.Unpressed signals →
      (∀ L ∈ limit, L.toNat < points.length →
        StopsFirst (limits.verdicts signals Meter.start points) L.toNat
          (.iterationLimit (.int L))) ∧
      ((∀ L ∈ limit, points.length ≤ L.toNat) →
        ∀ verdict ∈ limits.verdicts signals Meter.start points, verdict = .none)) := by
  refine ⟨fun pressed => ⟨fun i least => ?_, fun undue => ?_⟩,
    fun unpressed => ⟨fun L given inside => ?_, fun all => ?_⟩⟩
  · refine stopsFirst_of_isLeast counted ⟨pressed.stops_of_due least.1, fun j stops => ?_⟩
    obtain ⟨k, le, due⟩ := stops.exists_due
    exact (least.2 due).trans le
  · refine forall_passed counted signals fun j stops => ?_
    obtain ⟨k, _, due⟩ := stops.exists_due
    exact undue k due
  · have stops : Stops limits limit signals points L.toNat :=
      unpressed.stops_iff.mpr ⟨inside, L, given, rfl⟩
    have least : IsLeast {i | Stops limits limit signals points i} L.toNat := by
      refine ⟨stops, fun j stops => ?_⟩
      obtain ⟨_, L', given', number⟩ := unpressed.stops_iff.mp stops
      rw [← number, Option.mem_unique given given']
    obtain ⟨reason, first, cause⟩ := stopsFirst_of_isLeast counted least
    cases cause with
    | beyond given' _ =>
      cases Option.mem_unique given given'
      exact first
    | cancelled within _ => exact absurd ⟨L, given, rfl⟩ within
    | elapsed within _ _ _ => exact absurd ⟨L, given, rfl⟩ within
  · refine forall_passed counted signals fun j stops => ?_
    obtain ⟨inside, L, given, number⟩ := unpressed.stops_iff.mp stops
    exact absurd inside (Nat.not_lt.mpr (number ▸ all L given))

/-- No time at all, five points, and a look at every third tick. -/
def everyThird : Limits := ⟨some (.int 0), some (.int 5), 3, by decide⟩

/-- Three ticks and a check, and the same again. -/
def twoRounds : List Checkpoint :=
  [.tick, .tick, .tick, .check, .tick, .tick, .tick, .check]

/-- With the time over from the beginning the third tick stops them, before the first check; if it
never is over, the first point beyond the limit of five does. -/
theorem acts_first_everyThird :
    everyThird.iterationLimit = (some 5).map .int ∧
      StopsFirst (everyThird.verdicts (fun _ => ⟨true, false⟩) Meter.start twoRounds) 2
        (.elapsed (.int 0)) ∧
      StopsFirst (everyThird.verdicts (fun _ => ⟨false, false⟩) Meter.start twoRounds) 5
        (.iterationLimit (.int 5)) := by
  have counted : everyThird.iterationLimit = (some 5).map .int := rfl
  refine ⟨counted, ?_, ?_⟩
  · have least : IsLeast {i | Due everyThird (some 5) twoRounds i} 2 := by
      refine ⟨.interval rfl rfl, fun j due => ?_⟩
      by_contra before
      obtain rfl | rfl : j = 0 ∨ j = 1 := by omega
      all_goals
        rcases due with check | ⟨_, complete⟩ | ⟨_, L, given, number⟩
        · cases check
        · cases complete
        · cases given
          cases number
    obtain ⟨reason, first, cause⟩ := ((acts_first everyThird (some 5) counted
      (fun _ => ⟨true, false⟩) twoRounds).1 (.inl ⟨rfl, fun _ => rfl⟩)).1 2 least
    cases cause with
    | beyond given number =>
      cases given
      cases number
    | cancelled _ cancelled => cases cancelled
    | elapsed _ _ timeLimit _ =>
      cases timeLimit
      exact first
  · exact ((acts_first everyThird (some 5) counted (fun _ => ⟨false, false⟩) twoRounds).2
      ⟨fun _ => rfl, .inr fun _ => rfl⟩).1 5 rfl (by decide)

end Limits

namespace Run

variable {ε α : Type}

/-- The points that a computation passes if nobody stops it. -/
def points : Run ε α → List Checkpoint
  | .done _ => []
  | .pause point _ next => point :: (next ()).points

/-- Under limits a computation gives its outcome if all its points are passed. Otherwise the first
one that stops it cuts it off, with the reason given there. -/
theorem supervise_verdicts {read : ε → Failure} {x : Run ε α} (cut : Interruptible read x)
    (limits : Limits) (signals : Nat → Signal) (m : Meter) :
    ((∀ verdict ∈ limits.verdicts signals m x.points, verdict = none) →
      x.supervise limits signals m = x.outcome) ∧
    ∀ i reason, Limits.StopsFirst (limits.verdicts signals m x.points) i reason →
      ∃ e, x.supervise limits signals m = .error e ∧ read e = .timeout reason := by
  induction cut generalizing m with
  | done result =>
    refine ⟨fun _ => rfl, fun i reason first => ?_⟩
    cases first.stopped
  | @pause point cut next named _ ih =>
    rw [supervise, points, Limits.verdicts, outcome_pause]
    obtain ⟨m', verdict⟩ := limits.pass (signals m.iterations) point m
    cases verdict with
    | none =>
      obtain ⟨all, one⟩ := ih m'
      refine ⟨fun passed => all fun verdict member => passed verdict (.tail _ member),
        fun i reason first => ?_⟩
      cases i with
      | zero => cases first.stopped
      | succ i =>
        exact one i reason ⟨fun j before => first.passed (j + 1) (Nat.succ_lt_succ before),
          first.stopped⟩
    | some reason =>
      refine ⟨fun passed => ?_, fun i reason' first => ?_⟩
      · cases passed _ (.head _)
      · cases i with
        | zero =>
          cases first.stopped
          exact ⟨cut reason, rfl, named reason⟩
        | succ i => cases first.passed 0 (Nat.succ_pos i)

end Run

end Optima
