import Optima.Proofs.Solver.Native
import Optima.Service

/-!
Limits on a call. They can keep a problem from being solved, but not change its solution: whatever
limits the settings and the options name, whatever the clock shows and whenever the call is
cancelled, the solution is the one that there is without limits, or reports the cut. Of the limits
on the number of points some are enough, and all smaller ones are not.

This is said of the five families that are solved here. External solvers are told the time that is
left, and what they make of it is up to them.
-/

namespace Optima

/-- The answer of a solve that was cut off: it gives the wording of the cut, and neither a result
nor an objective. -/
structure Solution.CutOff (s : Solution) (message : String) : Prop where
  timedOut : s.status = .timedOut
  worded : s.message = message
  no_result : s.result = none
  no_objective : s.objective = none

/-- The answer is a solution with this status. -/
def Answer.HasStatus (a : Answer) (status : Status) : Prop :=
  ∃ solution, a.outcome = .ok solution ∧ solution.status = status

theorem Answer.hasStatus_iff {a : Answer} {solution : Solution} (ok : a.outcome = .ok solution)
    (status : Status) : a.HasStatus status ↔ solution.status = status := by
  constructor
  · rintro ⟨_, ok', same⟩
    cases ok.symm.trans ok'
    exact same
  · exact fun same => ⟨solution, ok, same⟩

instance (a : Answer) (status : Status) : Decidable (a.HasStatus status) :=
  match outcome : a.outcome with
  | .ok solution => decidable_of_iff (solution.status = status) (a.hasStatus_iff outcome status).symm
  | .error _ => .isFalse (by simp [Answer.HasStatus, outcome])

/-- An outside where nothing ever happens. -/
def Surroundings.calm : Surroundings where
  signals _ _ := ⟨false, false⟩
  replies := ⟨fun _ => ⟨4, false, none, none, none, none⟩, fun _ => false,
    fun _ => ⟨0, none, fun _ => .int 0, none, 0⟩, fun _ => none⟩

/-- The settings with other limits. -/
def Settings.limited (settings : Settings) (timeLimit : Option Binary64)
    (iterationLimit : Option Int) (interval : Int) : Settings :=
  { settings with
    defaultTimeLimit := timeLimit
    iterationLimit := iterationLimit
    checkpointInterval := interval }

/-- What limits make of a solve that has a number of points, and without limits the solution `free`:
it is kept or cut off, and where only the points are counted their number decides which. -/
structure Solution.Limited (free : Solution) (points : Nat) (limits : Limits)
    (signals : Nat → Signal) (s : Solution) : Prop where
  free_or_cutOff : s = free ∨ ∃ message, s.CutOff message
  free_of_unlimited : limits.Counting → limits.iterationLimit = none → Signal.Quiet signals →
    s = free
  free_of_le (limit : Nat) : limits.Counting → limits.iterationLimit = some (.int limit) →
    Signal.Quiet signals → points ≤ limit → s = free
  cutOff_of_lt (limit : Nat) : limits.Counting → limits.iterationLimit = some (.int limit) →
    Signal.Quiet signals → limit < points →
    s.CutOff ("iteration limit of " ++ toString limit ++ " reached")

/-- What is no matter of a computation is the same under all limits. -/
theorem Solution.Limited.refl (free : Solution) (limits : Limits) (signals : Nat → Signal) :
    free.Limited 0 limits signals free :=
  ⟨.inl rfl, fun _ _ _ => rfl, fun _ _ _ _ _ => rfl,
    fun _ _ _ _ short => absurd short (Nat.not_lt_zero _)⟩

/-! ### What a capability makes of a computation -/

namespace Capability

/-- The solution for what came of a solve that raises failures only. -/
def solution (c : Capability) : Except Failure (External.Consultation Finding) → Solution
  | .error failure | .ok ⟨_, .error failure⟩ =>
      .ofFailure c.identifier (some c.family) failure .empty
  | .ok ⟨_, .ok finding⟩ =>
      .optimal c.identifier c.solver.family.name finding.result finding.objective finding.stats
        finding.message

/-- A cut is answered as one. -/
theorem solution_timeout (c : Capability) (reason : Timeout) :
    (c.solution (.error (.timeout reason))).CutOff reason.message :=
  ⟨rfl, rfl, rfl, rfl⟩

/-- The solution for a computation under limits. -/
theorem solution_limited (c : Capability) {solve : Run Failure (External.Consultation Finding)}
    (cut : Run.Interruptible id solve) (limits : Limits) (signals : Nat → Signal) :
    (c.solution solve.outcome).Limited solve.length limits signals
      (c.solution (solve.supervise limits signals Meter.start)) where
  free_or_cutOff := by
    rcases Run.supervise_outcome_or_cut cut limits signals Meter.start with same | stopped
    · exact .inl (by rw [same])
    · obtain ⟨e, reason, stopped, rfl⟩ := stopped
      rw [stopped]
      exact .inr ⟨_, c.solution_timeout reason⟩
  free_of_unlimited counting uncounted quiet := by
    rw [Run.supervise_unlimited counting uncounted quiet]
  free_of_le limit counting counted quiet enough := by
    have all := Run.supervise_counting cut counting counted quiet Meter.start (Nat.zero_le _)
    rw [all.1 (by simpa [Meter.start] using enough)]
  cutOff_of_lt limit counting counted quiet short := by
    have all := Run.supervise_counting cut counting counted quiet Meter.start (Nat.zero_le _)
    obtain ⟨e, stopped, rfl⟩ := all.2 (by simpa [Meter.start] using short)
    rw [stopped]
    exact c.solution_timeout _

end Capability

/-- A solver that raises failures only is answered with a solution. -/
theorem Service.consult_outcome (s : Service) {c : Capability} {p : Problem} {options : Options}
    {surroundings : Surroundings} {solve : Run Failure (External.Consultation Finding)}
    (raises : ∀ occasion, c.solver.solve p occasion = solve.mapError .failure) :
    (s.consult c p options surroundings).outcome = .ok (c.solution (solve.supervise
      (s.limits options) (surroundings.signals (s.limits options)) Meter.start)) := by
  simp only [consult, raises, Run.supervise_mapError]
  rcases solve.supervise _ _ _ with failure | ⟨calls, failure | finding⟩ <;> rfl

/-! ### The standard service -/

/-- A capability for a family that is solved here has a solver of that family that works by
itself. -/
theorem Capabilities.standardEntry_native (settings : Settings) (installed : String → Bool)
    {family : Family} (native : family ≠ .constraint) :
    (standardEntry settings installed family).solver.family = family ∧
      (standardEntry settings installed family).solver.Native := by
  cases family with
  | assignment => exact ⟨rfl, Solver.assignment_native _ _⟩
  | knapsack => exact ⟨rfl, Solver.knapsack_native⟩
  | shortestPath => exact ⟨rfl, Solver.shortestPath_native⟩
  | maxFlow => exact ⟨rfl, Solver.maxFlow_native _⟩
  | minCostFlow => exact ⟨rfl, Solver.minCostFlow_native⟩
  | constraint => exact absurd rfl native

/-- A capability is meant for the family that it was set up for. -/
theorem Capabilities.standardEntry_family (settings : Settings) (installed : String → Bool)
    (family : Family) : (standardEntry settings installed family).family = family.name := by
  unfold standardEntry
  split <;> rfl

theorem Family.name_injective : Function.Injective Family.name := by
  intro f g same
  have read := congrArg Family.ofName? same
  rwa [Family.ofName?_name, Family.ofName?_name, Option.some.injEq] at read

namespace Service

/-- The service that settings ask for. -/
def standard (settings : Settings) (installed : String → Bool) : Service :=
  ⟨settings, .standard settings installed⟩

/-- Solves a problem with the capability that was asked for, if there was one, and else with that of
its family. -/
def solveProblem (s : Service) (capability : Option String) (p : Problem) (options : Options)
    (surroundings : Surroundings) : Answer :=
  match capability with
  | some identifier => s.solveWith identifier (.problem p) options surroundings
  | none => s.solve (.problem p) options surroundings

/-- Nothing but the identifier counts. -/
theorem solveProblem_eq (s : Service) (capability : Option String) (p : Problem)
    (options : Options) (surroundings : Surroundings) :
    s.solveProblem capability p options surroundings =
      s.solveWith (capability.getD p.family.capability) (.problem p) options surroundings := by
  cases capability with
  | some identifier => rfl
  | none => simp only [solveProblem, solve, Subject.kind, Family.capabilityOf_name, Option.getD_none]

/-- Requests that state a problem are answered by solving it. -/
theorem answer_of_problem {s : Service} {request : Request} {p : Problem}
    (stated : request.problem = .ok p) (capability : Option String) (options : Options)
    (surroundings : Surroundings) : s.answer request capability options surroundings =
      s.solveProblem capability p options surroundings := by
  cases capability <;> simp only [answer, solveProblem, stated]

/-- The capability that a problem is handed over to, or the answer for one that is not. -/
def assignee (s : Service) (identifier : String) (p : Problem) : Except Answer Capability :=
  match s.capabilities.lookup identifier with
  | none => .error (.ofFailure identifier none
      (.unsupported ("no provider registered for '" ++ identifier ++ "'")))
  | some c => match s.accept c (.problem p) with
    | .error raised => .error (.ofRaised identifier (some c.family) raised)
    | .ok _ => .ok c

/-- What is accepted is the problem itself, which is one of the capability's family. -/
theorem accept_eq_ok {s : Service} {c : Capability} {p q : Problem}
    (accepted : s.accept c (.problem p) = .ok q) : q = p ∧ p.family.name = c.family := by
  unfold accept at accepted
  split at accepted
  · cases accepted
  · split at accepted
    · cases accepted
    · rename_i _ own
      have own : p.family.name = c.family := by simpa [Subject.kind] using own
      simp only at accepted
      split at accepted
      · cases accepted
      · cases accepted
        exact ⟨rfl, own⟩

/-- What keeps a problem from being accepted is a failure. -/
theorem accept_eq_error {s : Service} {c : Capability} {p : Problem} {raised : Raised}
    (refused : s.accept c (.problem p) = .error raised) : ∃ failure, raised = .failure failure := by
  unfold accept at refused
  split at refused
  · cases refused
    exact ⟨_, rfl⟩
  · split at refused
    · cases refused
      exact ⟨_, rfl⟩
    · simp only at refused
      split at refused
      · cases refused
        exact ⟨_, rfl⟩
      · cases refused

/-- A problem that is not handed over is answered with a solution. -/
theorem outcome_of_no_assignee {s : Service} {identifier : String} {p : Problem} {answer : Answer}
    (refused : s.assignee identifier p = .error answer) :
    ∃ solution, answer.outcome = .ok solution := by
  unfold assignee at refused
  split at refused
  · cases refused
    exact ⟨_, rfl⟩
  · split at refused
    · rename_i failed
      obtain ⟨failure, rfl⟩ := accept_eq_error failed
      cases refused
      exact ⟨_, rfl⟩
    · cases refused

/-- A problem is handed over as it is, or not at all. -/
theorem solveWith_problem (s : Service) (identifier : String) (p : Problem) (options : Options)
    (surroundings : Surroundings) :
    s.solveWith identifier (.problem p) options surroundings =
      match s.assignee identifier p with
      | .error answer => answer
      | .ok c => s.consult c p options surroundings := by
  unfold solveWith assignee
  cases s.capabilities.lookup identifier with
  | none => rfl
  | some c =>
    cases accepted : s.accept c (.problem p) with
    | error failure => simp only [accepted]
    | ok q =>
      obtain ⟨rfl, _⟩ := accept_eq_ok accepted
      simp only [accepted]

/-- Of the standard capabilities only the one for a problem's family admits it. -/
theorem assignee_standard {settings : Settings} {installed : String → Bool} {identifier : String}
    {p : Problem} {c : Capability}
    (admitted : (standard settings installed).assignee identifier p = .ok c) :
    c = Capabilities.standardEntry settings installed p.family := by
  unfold assignee at admitted
  split at admitted
  · cases admitted
  · rename_i found
    split at admitted
    · cases admitted
    · rename_i accepted
      cases admitted
      have listed := ((Capabilities.lookup_eq_some_iff _ _ _).mp found).1
      obtain ⟨family, _, rfl⟩ := List.mem_map.mp listed
      have own := (accept_eq_ok accepted).2
      rw [Capabilities.standardEntry_family] at own
      rw [Family.name_injective own]

/-- Limits only cut off: for every problem of a family that is solved here there are the solution
without limits and a number of points, such that a call under any limits gives that solution or
reports a cut, and one that only counts points gives it if and only if the limit is not below their
number. -/
theorem limits_only_cut_off (settings : Settings) (installed : String → Bool)
    (capability : Option String) (p : Problem) (native : p.family ≠ .constraint) :
    ∃ (free : Solution) (points : Nat),
      ∀ timeLimit iterationLimit interval options surroundings,
        let s := standard (settings.limited timeLimit iterationLimit interval) installed
        ∃ solution, (s.solveProblem capability p options surroundings).outcome = .ok solution ∧
          free.Limited points (s.limits options) (surroundings.signals (s.limits options))
            solution := by
  simp only [solveProblem_eq, solveWith_problem]
  generalize capability.getD p.family.capability = identifier
  -- who is asked has nothing to do with limits
  have same timeLimit iterationLimit interval :
      (standard (settings.limited timeLimit iterationLimit interval) installed).assignee
        identifier p = (standard settings installed).assignee identifier p := rfl
  simp only [same]
  cases admitted : (standard settings installed).assignee identifier p with
  | error answer =>
    obtain ⟨solution, reported⟩ := outcome_of_no_assignee admitted
    exact ⟨solution, 0, fun _ _ _ _ _ => ⟨solution, reported, .refl ..⟩⟩
  | ok c =>
    cases assignee_standard admitted
    obtain ⟨own, alone⟩ := Capabilities.standardEntry_native settings installed native
    obtain ⟨solve, cut, alike⟩ := alone p own.symm
    let c := Capabilities.standardEntry settings installed p.family
    refine ⟨c.solution solve.outcome, solve.length, ?_⟩
    intro timeLimit iterationLimit interval options surroundings
    exact ⟨_, consult_outcome _ alike, c.solution_limited cut _ _⟩

/-- Two items make two points: a limit of one cuts the solve off, a limit of two does not. -/
theorem limits_only_cut_off_twoItems :
    (Problem.knapsack ⟨[1, 2], [3, 4], 3⟩).family ≠ .constraint ∧
      ∃ free : Solution, free.status = .optimal ∧
        ∀ timeLimit iterationLimit interval options surroundings,
          let s := standard (Settings.standard.limited timeLimit iterationLimit interval)
            fun _ => false
          ∃ solution, (s.solveProblem none (.knapsack ⟨[1, 2], [3, 4], 3⟩) options
            surroundings).outcome = .ok solution ∧
            free.Limited 2 (s.limits options) (surroundings.signals (s.limits options))
              solution := by
  have native : (Problem.knapsack ⟨[1, 2], [3, 4], 3⟩).family ≠ .constraint := by decide
  obtain ⟨free, points, limited⟩ :=
    limits_only_cut_off Settings.standard (fun _ => false) none _ native
  obtain ⟨unlimited, solved, kept⟩ := limited none none 1 .none .calm
  obtain ⟨short, shortened, one⟩ := limited none none 1 ⟨none, some 1⟩ .calm
  obtain ⟨long, allowed, two⟩ := limited none none 1 ⟨none, some 2⟩ .calm
  have optimal : free.status = .optimal := by
    rw [← kept.free_of_unlimited rfl rfl fun _ => rfl, ← Answer.hasStatus_iff solved]
    decide +kernel
  have more : ¬ points ≤ 1 := by
    intro enough
    have same := congrArg Solution.status (one.free_of_le 1 rfl rfl (fun _ => rfl) enough)
    rw [optimal, ← Answer.hasStatus_iff shortened] at same
    exact absurd same (by decide +kernel)
  have enough : ¬ 2 < points := by
    intro fewer
    have cut := (two.cutOff_of_lt 2 rfl rfl (fun _ => rfl) fewer).timedOut
    rw [← Answer.hasStatus_iff allowed] at cut
    exact absurd cut (by decide +kernel)
  obtain rfl : points = 2 := by omega
  exact ⟨native, free, optimal, limited⟩

end Service

end Optima
