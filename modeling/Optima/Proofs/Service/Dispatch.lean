import Mathlib.Tactic.Common
import Optima.Proofs.Service.Limits
import Optima.Proofs.Service.Report

/-!
What a service does with whatever it is asked (`respond_gated`). At most one capability is admitted
to an inquiry, namely one that is registered, enabled, meant for the family of the problem and asked
to solve a problem without a defect (`Admits`). Its solver is asked once, and only it matters for
the answer, through what it makes of that problem on that occasion. What comes back is the finding
of that solver, as it is, or the report of a failure (`Solution.Reports`).

Two things leave the service as exceptions: a kind that cannot be looked up or shown (`Unfit`), and
what a solver raised and nobody can report on (`Raised.Escapes`). Both occur (`respond_escapes`).

All of this rests on one case distinction: either nobody is admitted and nobody is asked, or the
answer is what becomes of the solve of the capability that is admitted (`respond_cases`).
-/

namespace Optima

/-! ### Inquiries -/

/-- Something that a service is asked: to solve what is handed over, with a certain capability or
not, or to answer a request. -/
inductive Inquiry where
  | solve (subject : Subject)
  | solveWith (identifier : String) (subject : Subject)
  | answer (request : Request) (capability : Option String)

/-- The identifier that an inquiry is addressed to and what is to be solved; or, of an inquiry that
is addressed to nobody, the label and what it ends with. -/
def Inquiry.route : Inquiry → Except (String × Raised) (String × Subject)
  | solve subject => match Family.capabilityOf subject.kind with
    | .ok identifier => .ok (identifier, subject)
    | .error escape => .error ("unknown", if escape.isNoKey then
        .failure (.invalidInput ("not a recognised problem: " ++ subject.typeName))
      else .wordless escape)
  | solveWith identifier subject => .ok (identifier, subject)
  | answer request capability => match request.problem with
    | .failed issue _ => .error ((capability.filter (· ≠ "")).getD request.likelyCapability,
        .failure (Service.malformed issue))
    | .ok p => .ok (capability.getD p.family.capability, .problem p)

namespace Service

variable (s : Service) (inquiry : Inquiry) (options : Options) (surroundings : Surroundings)

/-- What a service responds to an inquiry. -/
def respond : Answer :=
  match inquiry with
  | .solve subject => s.solve subject options surroundings
  | .solveWith identifier subject => s.solveWith identifier subject options surroundings
  | .answer request capability => s.answer request capability options surroundings

/-- A response depends on the way in only through where it leads to. -/
theorem respond_eq : s.respond inquiry options surroundings =
    match inquiry.route with
    | .error (label, raised) => .ofRaised label none raised
    | .ok (identifier, subject) => s.solveWith identifier subject options surroundings := by
  cases inquiry with
  | solve subject =>
    simp only [respond, Service.solve, Inquiry.route]
    cases Family.capabilityOf subject.kind with
    | ok identifier => rfl
    | error escape =>
      dsimp only
      split <;> rfl
  | solveWith identifier subject => rfl
  | answer request capability =>
    cases stated : request.problem with
    | failed issue rest =>
      simp only [respond, Service.answer, Inquiry.route, stated]
      rfl
    | ok p =>
      rw [respond, answer_of_problem stated, solveProblem_eq]
      simp only [Inquiry.route, stated]

/-! ### Who is admitted -/

/-- The capability is admitted to solve the problem that an inquiry is about. -/
structure Admits (c : Capability) (p : Problem) : Prop where
  asked : inquiry.route = .ok (c.identifier, .problem p)
  registered : c ∈ s.capabilities.entries
  enabled : c.enabled = true
  own_family : p.family.name = c.family
  sound : p.defect? s.settings.knapsackMemoryBudget = none

variable {s inquiry options surroundings}

/-- Accepted are sound problems, by capabilities that are enabled and meant for their family. -/
theorem accept_eq_ok_iff {c : Capability} {subject : Subject} {p : Problem} :
    s.accept c subject = .ok p ↔ subject = .problem p ∧ c.enabled = true ∧
      p.family.name = c.family ∧ p.defect? s.settings.knapsackMemoryBudget = none := by
  constructor
  · intro accepted
    unfold accept at accepted
    split at accepted
    · cases accepted
    · rename_i enabled
      split at accepted
      · cases accepted
      · rename_i own
        split at accepted
        · cases accepted
        · split at accepted
          · cases accepted
          · rename_i sound
            cases accepted
            exact ⟨rfl, by simpa using enabled, by simpa [Subject.kind] using own, sound⟩
  · rintro ⟨rfl, enabled, own, sound⟩
    unfold accept
    simp [enabled, Subject.kind, own, sound]

/-- What is admitted is found by its identifier. -/
theorem Admits.lookup {c : Capability} {p : Problem} (admits : s.Admits inquiry c p) :
    s.capabilities.lookup c.identifier = some c :=
  (Capabilities.lookup_eq_some_iff _ _ _).mpr ⟨admits.registered, rfl⟩

/-- No two capabilities are admitted to one inquiry. -/
theorem Admits.unique {c c' : Capability} {p p' : Problem} (first : s.Admits inquiry c p)
    (second : s.Admits inquiry c' p') : c = c' ∧ p = p' := by
  have asked := first.asked.symm.trans second.asked
  simp only [Except.ok.injEq, Prod.mk.injEq, Subject.problem.injEq] at asked
  have found := first.lookup
  rw [asked.1, second.lookup] at found
  exact ⟨(Option.some.inj found).symm, asked.2⟩

/-! ### What nobody can be asked about -/

/-- The kind of a subject brings up an exception before anybody is asked: it has parts and cannot be
looked up, or it is too long to be shown in the report that it is not the right one. -/
inductive Unfit (s : Service) : Inquiry → Escape → Prop
  | parts {subject : Subject} : subject.kind.hasParts = true →
      Unfit s (.solve subject) (.unhashable subject.kind.typeName)
  | unknown {subject : Subject} {fault : Fault} : subject.kind.hasParts = false →
      subject.kind.shown = .error fault → Unfit s (.solve subject) (.ofFault fault)
  | other {c : Capability} {subject : Subject} {fault : Fault} : c ∈ s.capabilities.entries →
      c.enabled = true → subject.kind.isText c.family = false →
      subject.kind.shown = .error fault → Unfit s (.solveWith c.identifier subject) (.ofFault fault)

theorem isNoKey_ofFault (fault : Fault) : (Escape.ofFault fault).isNoKey = false := by
  cases fault <;> decide

theorem capabilityOf_of_parts {d : Datum} (parts : d.hasParts = true) :
    Family.capabilityOf d = .error (.unhashable d.typeName) := by
  have word : d.word? = .error (.unhashable d.typeName) := if_pos parts
  rw [Family.capabilityOf, word]
  rfl

theorem capabilityOf_of_whole {d : Datum} (whole : d.hasParts = false) :
    Family.capabilityOf d = match d.text?.bind Family.ofName? with
      | some family => .ok family.capability
      | none => match d.shown with
        | .ok name => .error (.noKey (some (Family.unknownMessage name)))
        | .error fault => .error (.ofFault fault) := by
  have word : d.word? = .ok d.text? := if_neg (Bool.eq_false_iff.mp whole)
  rw [Family.capabilityOf, word]
  simp only [bind, Except.bind]
  cases d.text?.bind Family.ofName? with
  | some family => rfl
  | none => cases d.shown <;> rfl

/-- Data that is no text can be no name of a family. -/
theorem text?_eq_none_of_shown {d : Datum} {fault : Fault} (long : d.shown = .error fault) :
    d.text? = none := by
  cases d with
  | text s => cases long
  | _ => rfl

/-- Looking up the capability of a subject's kind fails as such, or the kind is unfit for it. -/
theorem unfit_of_capabilityOf {subject : Subject} {escape : Escape}
    (failed : Family.capabilityOf subject.kind = .error escape) (found : escape.isNoKey = false) :
    s.Unfit (.solve subject) escape := by
  cases parts : subject.kind.hasParts with
  | true =>
    rw [capabilityOf_of_parts parts] at failed
    cases failed
    exact .parts parts
  | false =>
    rw [capabilityOf_of_whole parts] at failed
    split at failed
    · cases failed
    · split at failed
      · cases failed
        cases found
      · rename_i fault long
        cases failed
        exact .unknown parts long

/-- What an inquiry that is addressed to nobody ends with is a report, or its kind is unfit. -/
theorem unfit_of_route {label : String} {raised : Raised} {escape : Escape}
    (route : inquiry.route = .error (label, raised)) (escapes : raised.Escapes escape) :
    s.Unfit inquiry escape := by
  cases inquiry with
  | solve subject =>
    simp only [Inquiry.route] at route
    split at route
    · cases route
    · rename_i other failed
      cases noKey : other.isNoKey with
      | true =>
        rw [noKey] at route
        cases route
        cases escapes
      | false =>
        rw [noKey] at route
        cases route
        cases escapes
        exact unfit_of_capabilityOf failed noKey
  | solveWith identifier subject => cases route
  | answer request capability =>
    simp only [Inquiry.route] at route
    split at route
    · cases route
      cases escapes
    · cases route

/-- Only a subject that is handed over with an identifier can be addressed to somebody and have a
kind that cannot be shown. -/
theorem eq_solveWith_of_route {identifier : String} {subject : Subject} {fault : Fault}
    (route : inquiry.route = .ok (identifier, subject)) (long : subject.kind.shown = .error fault) :
    inquiry = .solveWith identifier subject := by
  cases inquiry with
  | solve other =>
    simp only [Inquiry.route] at route
    split at route
    · rename_i found
      cases route
      cases parts : subject.kind.hasParts with
      | true =>
        rw [capabilityOf_of_parts parts] at found
        cases found
      | false =>
        rw [capabilityOf_of_whole parts, text?_eq_none_of_shown long, long] at found
        cases found
    · cases route
  | solveWith other subject =>
    cases route
    rfl
  | answer request capability =>
    simp only [Inquiry.route] at route
    split at route
    · cases route
    · cases route
      cases long

/-- A refusal that cannot be reported is one of a kind that cannot be shown. -/
theorem accept_escapes {c : Capability} {subject : Subject} {raised : Raised} {escape : Escape}
    (refused : s.accept c subject = .error raised) (escapes : raised.Escapes escape) :
    c.enabled = true ∧ subject.kind.isText c.family = false ∧
      ∃ fault, subject.kind.shown = .error fault ∧ escape = .ofFault fault := by
  unfold accept at refused
  split at refused
  · cases refused
    cases escapes
  · rename_i enabled
    split at refused
    · rename_i other
      unfold otherKind at refused
      split at refused
      · cases refused
        cases escapes
      · rename_i fault long
        cases refused
        cases escapes
        exact ⟨by simpa using enabled, by simpa using other, fault, long, rfl⟩
    · split at refused
      · cases refused
        cases escapes
      · split at refused
        · cases refused
          cases escapes
        · cases refused

/-- What is unfit leaves the service. -/
theorem Unfit.outcome {escape : Escape} (unfit : s.Unfit inquiry escape) :
    (s.respond inquiry options surroundings).outcome = .error escape := by
  cases unfit with
  | @parts subject parts =>
    simp only [respond, Service.solve, capabilityOf_of_parts parts]
    rfl
  | @unknown subject fault whole long =>
    have failed : Family.capabilityOf subject.kind = .error (.ofFault fault) := by
      rw [capabilityOf_of_whole whole, text?_eq_none_of_shown long, long]
      rfl
    simp only [respond, Service.solve, failed, isNoKey_ofFault]
    rfl
  | @other c subject fault registered enabled other long =>
    have found := (Capabilities.lookup_eq_some_iff _ _ _).mpr ⟨registered, rfl⟩
    have refused : s.accept c subject = .error (.wordless (.ofFault fault)) := by
      unfold accept otherKind
      simp [enabled, other, long]
    simp only [respond, solveWith, found, refused]
    rfl

/-! ### What becomes of an inquiry -/

/-- What the solver of a capability is told besides the problem. -/
def occasion (s : Service) (c : Capability) (options : Options) (surroundings : Surroundings) :
    Occasion :=
  ⟨c.identifier, (s.limits options).timeLeft, surroundings.replies⟩

/-- The solve of a problem with a capability, under the limits of the call. -/
def supervised (s : Service) (c : Capability) (p : Problem) (options : Options)
    (surroundings : Surroundings) : Except Raised (External.Consultation Finding) :=
  (c.solver.solve p (s.occasion c options surroundings)).supervise (s.limits options)
    (surroundings.signals (s.limits options)) Meter.start

end Service

/-- The answer for what came of asking the solver of a capability. -/
def Capability.answer (c : Capability) (p : Problem) :
    Except Raised (External.Consultation Finding) → Answer
  | .error raised => { Answer.ofRaised c.identifier (some c.family) raised with
      invocations := [⟨c.identifier, p⟩] }
  | .ok ⟨calls, .error failure⟩ => { Answer.ofFailure c.identifier (some c.family) failure with
      invocations := [⟨c.identifier, p⟩]
      calls := calls }
  | .ok ⟨calls, .ok finding⟩ =>
      ⟨.ok (.optimal c.identifier c.solver.family.name finding.result finding.objective
        finding.stats finding.message), [⟨c.identifier, p⟩], calls⟩

namespace Service

variable {s : Service} {inquiry : Inquiry} {options : Options} {surroundings : Surroundings}

/-- Being consulted is being asked to solve. -/
theorem consult_eq (c : Capability) (p : Problem) : s.consult c p options surroundings =
    c.answer p (s.supervised c p options surroundings) := rfl

/-- Nobody is admitted and nobody is asked, or the one that is admitted is asked. -/
theorem respond_cases (s : Service) (inquiry : Inquiry) (options : Options)
    (surroundings : Surroundings) :
    ((∀ c p, ¬ s.Admits inquiry c p) ∧ ∃ label family raised,
      s.respond inquiry options surroundings = .ofRaised label family raised ∧
      ∀ escape, raised.Escapes escape → s.Unfit inquiry escape) ∨
    ∃ c p, s.Admits inquiry c p ∧ s.respond inquiry options surroundings =
      c.answer p (s.supervised c p options surroundings) := by
  rw [respond_eq]
  rcases route : inquiry.route with ⟨label, raised⟩ | ⟨identifier, subject⟩
  · refine .inl ⟨fun c p admits => ?_, _, _, _, rfl, fun escape escapes => ?_⟩
    · have asked := admits.asked
      rw [route] at asked
      cases asked
    · exact unfit_of_route route escapes
  · have asked : ∀ {c p}, s.Admits inquiry c p →
        identifier = c.identifier ∧ subject = .problem p := by
      intro c p admits
      simpa using route.symm.trans admits.asked
    dsimp only
    unfold solveWith
    cases found : s.capabilities.lookup identifier with
    | none =>
      refine .inl ⟨fun c p admits => ?_, _, _, _, rfl, fun escape escapes => by cases escapes⟩
      rw [(asked admits).1, admits.lookup] at found
      cases found
    | some c =>
      obtain ⟨registered, rfl⟩ := (Capabilities.lookup_eq_some_iff _ _ _).mp found
      cases accepted : s.accept c subject with
      | error raised =>
        refine .inl ⟨fun c' p admits => ?_, c.identifier, some c.family, raised, by
          simp only [accepted], fun escape escapes => ?_⟩
        · obtain ⟨same, rfl⟩ := asked admits
          rw [same, admits.lookup] at found
          obtain rfl := Option.some.inj found
          rw [accept_eq_ok_iff.mpr ⟨rfl, admits.enabled, admits.own_family, admits.sound⟩]
            at accepted
          cases accepted
        · obtain ⟨enabled, other, fault, long, rfl⟩ := accept_escapes accepted escapes
          rw [eq_solveWith_of_route route long]
          exact .other registered enabled other long
      | ok p =>
        obtain ⟨rfl, enabled, own, sound⟩ := accept_eq_ok_iff.mp accepted
        refine .inr ⟨c, p, ⟨route, registered, enabled, own, sound⟩, ?_⟩
        simp only [accepted, consult_eq]

/-- The answer of the one that is admitted. -/
theorem Admits.respond_eq {c : Capability} {p : Problem} (admits : s.Admits inquiry c p) :
    s.respond inquiry options surroundings =
      c.answer p (s.supervised c p options surroundings) := by
  rcases respond_cases s inquiry options surroundings with ⟨nobody, -⟩ | ⟨c', p', admits', same⟩
  · exact absurd admits (nobody c p)
  · obtain ⟨rfl, rfl⟩ := admits.unique admits'
    exact same

/-- An answer that reports what was raised has a solution that reports it. -/
theorem reports_of_report {label : String} {family : Option String} {raised : Raised}
    {solution : Solution}
    (ok : (raised.report label family).map (Solution.ofError · .empty) = .ok solution) :
    ∃ kind message, raised.Says kind message ∧
      solution.Reports ⟨kind, label, family, message⟩ := by
  cases reported : raised.report label family with
  | error escape =>
    rw [reported] at ok
    cases ok
  | ok e =>
    rw [reported] at ok
    cases ok
    obtain ⟨kind, message, said, rfl⟩ := (Raised.report_eq_ok_iff label family).mp reported
    exact ⟨kind, message, said, Solution.reports_ofError _ _⟩

/-- A solution reports a failure, or it is what the solver of the one that is admitted found. -/
theorem respond_reports_or_finds {solution : Solution}
    (ok : (s.respond inquiry options surroundings).outcome = .ok solution) :
    (∃ e, solution.Reports e) ∨
    ∃ c p calls finding, s.Admits inquiry c p ∧
      s.supervised c p options surroundings = .ok ⟨calls, .ok finding⟩ ∧
      solution = .optimal c.identifier c.solver.family.name finding.result finding.objective
        finding.stats finding.message := by
  rcases respond_cases s inquiry options surroundings with
    ⟨-, label, family, raised, same, -⟩ | ⟨c, p, admits, same⟩
  · rw [same] at ok
    obtain ⟨kind, message, -, reports⟩ := reports_of_report ok
    exact .inl ⟨_, reports⟩
  · rw [same] at ok
    rcases came : s.supervised c p options surroundings with raised | ⟨calls, failure | finding⟩
    · rw [came] at ok
      obtain ⟨kind, message, -, reports⟩ := reports_of_report ok
      exact .inl ⟨_, reports⟩
    · rw [came] at ok
      cases ok
      exact .inl ⟨_, Solution.reports_ofError _ _⟩
    · rw [came] at ok
      cases ok
      exact .inr ⟨c, p, calls, finding, admits, came, rfl⟩

/-- Exceptions leave a service where a kind is unfit, and where nobody can report on what the solver
of the one that is admitted raised. -/
theorem respond_eq_error_iff {escape : Escape} :
    (s.respond inquiry options surroundings).outcome = .error escape ↔ s.Unfit inquiry escape ∨
      ∃ c p raised, s.Admits inquiry c p ∧
        s.supervised c p options surroundings = .error raised ∧ raised.Escapes escape := by
  have escapes_of {label : String} {family : Option String} {raised : Raised}
      (failed : (raised.report label family).map (Solution.ofError · .empty) = .error escape) :
      raised.Escapes escape := by
    cases reported : raised.report label family with
    | error other =>
      rw [reported] at failed
      cases failed
      exact (Raised.report_eq_error_iff label family).mp reported
    | ok e =>
      rw [reported] at failed
      cases failed
  constructor
  · intro failed
    rcases respond_cases s inquiry options surroundings with
      ⟨-, label, family, raised, same, unfit⟩ | ⟨c, p, admits, same⟩
    · rw [same] at failed
      exact .inl (unfit escape (escapes_of failed))
    · rw [same] at failed
      rcases came : s.supervised c p options surroundings with raised | ⟨calls, failure | finding⟩
      · rw [came] at failed
        exact .inr ⟨c, p, raised, admits, came, escapes_of failed⟩
      · rw [came] at failed
        cases failed
      · rw [came] at failed
        cases failed
  · rintro (unfit | ⟨c, p, raised, admits, came, escapes⟩)
    · exact unfit.outcome
    · rw [admits.respond_eq, came]
      show (raised.report c.identifier (some c.family)).map (Solution.ofError · .empty) = _
      rw [escapes.report]
      rfl

/-! ### Solvers that nobody asks -/

/-- The service with other solvers behind its capabilities. -/
def withSolvers (s : Service) (solvers : Capability → Solver) : Service where
  settings := s.settings
  capabilities :=
    { entries := s.capabilities.entries.map fun c => { c with solver := solvers c }
      distinct := by
        simpa only [List.map_map, Function.comp_def] using s.capabilities.distinct }

/-- Two solvers cannot be told apart by what they make of a problem on an occasion. -/
def Alike (one other : Solver) (p : Problem) (occasion : Occasion) : Prop :=
  one.family = other.family ∧ one.solve p occasion = other.solve p occasion

theorem lookup_withSolvers (solvers : Capability → Solver) (identifier : String) :
    (s.withSolvers solvers).capabilities.lookup identifier =
      (s.capabilities.lookup identifier).map fun c => { c with solver := solvers c } := by
  simp only [Capabilities.lookup, withSolvers, List.find?_map]
  rfl

/-- Where no other solver is put behind the capability that is admitted, or one that does the same,
nothing changes. -/
theorem respond_withSolvers {solvers : Capability → Solver}
    (alike : ∀ c p, s.Admits inquiry c p →
      Alike (solvers c) c.solver p (s.occasion c options surroundings)) :
    (s.withSolvers solvers).respond inquiry options surroundings =
      s.respond inquiry options surroundings := by
  rw [respond_eq, respond_eq]
  rcases route : inquiry.route with ⟨label, failure⟩ | ⟨identifier, subject⟩
  · rfl
  · dsimp only
    rw [solveWith, solveWith, lookup_withSolvers]
    cases found : s.capabilities.lookup identifier with
    | none => rfl
    | some c =>
      obtain ⟨registered, rfl⟩ := (Capabilities.lookup_eq_some_iff _ _ _).mp found
      have same : (s.withSolvers solvers).accept { c with solver := solvers c } subject =
        s.accept c subject := rfl
      simp only [Option.map_some, same]
      cases accepted : s.accept c subject with
      | error failure => rfl
      | ok p =>
        obtain ⟨rfl, enabled, own, sound⟩ := accept_eq_ok_iff.mp accepted
        obtain ⟨family, solves⟩ := alike c p ⟨route, registered, enabled, own, sound⟩
        have supervised : (s.withSolvers solvers).supervised { c with solver := solvers c } p
            options surroundings = s.supervised c p options surroundings :=
          congrArg (Run.supervise _ _ Meter.start) solves
        simp only [consult_eq, supervised]
        rcases s.supervised c p options surroundings with raised | ⟨calls, failure | finding⟩
        · rfl
        · rfl
        · simp only [Capability.answer, family]

/-! ### The answer -/

/-- The answer where the solver of a capability was asked to solve a problem. It was asked once.
What it found is what the solution holds; what it failed with or raised is what the solution
reports, if there is something to report. -/
structure Handed (s : Service) (options : Options) (surroundings : Surroundings) (c : Capability)
    (p : Problem) (a : Answer) : Prop where
  once : a.invocations = [⟨c.identifier, p⟩]
  found {calls : List External.Call} {finding : Finding} :
    s.supervised c p options surroundings = .ok ⟨calls, .ok finding⟩ →
    a.calls = calls ∧ a.outcome = .ok (.optimal c.identifier c.solver.family.name finding.result
      finding.objective finding.stats finding.message)
  failed {calls : List External.Call} {failure : Failure} :
    s.supervised c p options surroundings = .ok ⟨calls, .error failure⟩ →
    a.calls = calls ∧ ∃ solution, a.outcome = .ok solution ∧
      solution.Reports ⟨failure.kind, c.identifier, some c.family, failure.message⟩
  raised {raised : Raised} {kind : ErrorKind} {message : String} :
    s.supervised c p options surroundings = .error raised → raised.Says kind message →
    ∃ solution, a.outcome = .ok solution ∧
      solution.Reports ⟨kind, c.identifier, some c.family, message⟩

theorem Admits.handed {c : Capability} {p : Problem} (admits : s.Admits inquiry c p) :
    s.Handed options surroundings c p (s.respond inquiry options surroundings) := by
  rw [admits.respond_eq]
  refine ⟨?_, ?_, ?_, ?_⟩
  · rcases s.supervised c p options surroundings with raised | ⟨calls, failure | finding⟩ <;> rfl
  · intro calls finding came
    rw [came]
    exact ⟨rfl, rfl⟩
  · intro calls failure came
    rw [came]
    exact ⟨rfl, _, rfl, Solution.reports_ofError _ _⟩
  · intro raised kind message came said
    rw [came]
    refine ⟨.ofError ⟨kind, c.identifier, some c.family, message⟩ .empty, ?_,
      Solution.reports_ofError _ _⟩
    show (raised.report c.identifier (some c.family)).map (Solution.ofError · .empty) = _
    rw [said.report]
    rfl

/-- Dispatch is gated and well-formed. At most one capability is admitted, to solve one problem. If
none is, no solver is asked; else that of this capability is, once, and what it found comes back.
The response depends on no other solver, and on that one only through what it makes of the problem.
A solution is what that solver found, or reports a failure; of an unexpected exception, an internal
error. Exceptions leave the service in two cases only: the kind of the subject is unfit to be looked
up or shown, or the solver raised what cannot be reported. -/
theorem respond_gated (s : Service) (inquiry : Inquiry) (options : Options)
    (surroundings : Surroundings) :
    let answer := s.respond inquiry options surroundings
    (∀ c p c' p', s.Admits inquiry c p → s.Admits inquiry c' p' → c = c' ∧ p = p') ∧
    ((∀ c p, ¬ s.Admits inquiry c p) → answer.invocations = [] ∧ answer.calls = []) ∧
    (∀ c p, s.Admits inquiry c p → s.Handed options surroundings c p answer) ∧
    (∀ solvers : Capability → Solver,
      (∀ c p, s.Admits inquiry c p →
        Alike (solvers c) c.solver p (s.occasion c options surroundings)) →
      (s.withSolvers solvers).respond inquiry options surroundings = answer) ∧
    (∀ solution, answer.outcome = .ok solution → (∃ e, solution.Reports e) ∨
      ∃ c p calls finding, s.Admits inquiry c p ∧
        s.supervised c p options surroundings = .ok ⟨calls, .ok finding⟩ ∧
        solution = .optimal c.identifier c.solver.family.name finding.result finding.objective
          finding.stats finding.message ∧
        solution.status = .optimal ∧ solution.result = some finding.result ∧
        solution.error = none) ∧
    (∀ c p label text, s.Admits inquiry c p →
      s.supervised c p options surroundings = .error (.failure (.raised label text)) →
      ∃ solution, answer.outcome = .ok solution ∧
        solution.error = some ⟨.internalSolverError, c.identifier, some c.family,
          label ++ ": " ++ text⟩) ∧
    ∀ escape, answer.outcome = .error escape ↔ s.Unfit inquiry escape ∨
      ∃ c p raised, s.Admits inquiry c p ∧
        s.supervised c p options surroundings = .error raised ∧ raised.Escapes escape := by
  intro answer
  refine ⟨fun _ _ _ _ first second => first.unique second, fun nobody => ?_,
    fun c p admits => admits.handed, fun _ => respond_withSolvers, fun solution ok => ?_,
    fun c p label text admits came => ?_, fun escape => respond_eq_error_iff⟩
  · rcases respond_cases s inquiry options surroundings with
      ⟨-, _, _, _, same, -⟩ | ⟨c, p, admits, -⟩
    · have same : answer = _ := same
      rw [same]
      exact ⟨rfl, rfl⟩
    · exact absurd admits (nobody c p)
  · refine (respond_reports_or_finds ok).imp_right ?_
    rintro ⟨c, p, calls, finding, admits, came, rfl⟩
    exact ⟨c, p, calls, finding, admits, came, rfl, rfl, rfl, rfl⟩
  · obtain ⟨solution, ok, reports⟩ := admits.handed.raised came (.failure _)
    exact ⟨solution, ok, reports.error⟩

/-- One capability, for knapsacks, whose solver always raises the same. -/
def raising (raised : Raised) : Service where
  settings := Settings.standard
  capabilities :=
    { entries := [⟨"pack", "knapsack", .raising "Raising" .knapsack raised, true, ""⟩]
      distinct := by simp }

/-- A knapsack that is handed over to this capability. -/
def onePack : Inquiry := .solveWith "pack" (.problem (.knapsack ⟨[1], [1], 1⟩))

theorem admits_onePack (raised : Raised) : (raising raised).Admits onePack
    ⟨"pack", "knapsack", .raising "Raising" .knapsack raised, true, ""⟩ (.knapsack ⟨[1], [1], 1⟩) :=
  ⟨rfl, List.mem_singleton_self _, rfl, rfl, rfl⟩

/-- The exception of a solver that is admitted is reported as an internal error. -/
theorem respond_gated_raising :
    let s := raising (.failure (.raised "KeyError" "'boom'"))
    let answer := s.respond onePack .none .calm
    (∃ c p, s.Admits onePack c p) ∧
      answer.invocations = [⟨"pack", .knapsack ⟨[1], [1], 1⟩⟩] ∧
      ∃ solution, answer.outcome = .ok solution ∧ solution.error =
        some ⟨.internalSolverError, "pack", some "knapsack", "KeyError: 'boom'"⟩ := by
  intro s answer
  have admits := admits_onePack (.failure (.raised "KeyError" "'boom'"))
  obtain ⟨-, -, handed, -, -, unexpected, -⟩ := respond_gated s onePack .none .calm
  exact ⟨⟨_, _, admits⟩, (handed _ _ admits).once, unexpected _ _ _ _ admits rfl⟩

/-- Exceptions do leave services: a subject whose kind is a list cannot be looked up, and what a
solver raised with a number for its message cannot be reported. -/
theorem respond_escapes :
    ((standard Settings.standard fun _ => false).respond (.solve (.other "M" (.list []))) .none
        .calm).outcome = .error (.exception "TypeError" (some "unhashable type: 'list'")) ∧
    ((raising (.own "InfeasibleError" (.text "infeasible") (some (.int 5)))).respond onePack .none
        .calm).outcome = .error (.refused ⟨[.field "message"], .notText⟩ []) := by
  constructor
  · exact Unfit.outcome (.parts rfl)
  · exact respond_eq_error_iff.mpr
      (.inr ⟨_, _, _, admits_onePack _, rfl, .noText .infeasible rfl⟩)

end Service

end Optima
