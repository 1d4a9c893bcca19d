import Optima.Solution.Record

/-!
Reports of failures. A solution that reports a failure says everything twice, in itself and in its
error, and the two agree (`Solution.Reports`).

What a solver raised is reported by its kind and its message, if it has a known kind and a message
that is a text (`Raised.Says`). Everything else brings up another exception in the place of the
report (`Raised.Escapes`), and which one is known for every case (`Raised.report_eq_error_iff`).
-/

namespace Optima

/-! ### Solutions that report -/

/-- A solution that reports a failure: it has no result, its error says again what it says itself,
and the kind of the error determines its status. -/
structure Solution.Reports (s : Solution) (e : SolveError) : Prop where
  error : s.error = some e
  capability : e.capability = s.capability
  family : e.family = s.family
  message : e.message = s.message
  status : s.status.name =
    if e.kind ∈ [.infeasible, .unbounded, .timedOut] then e.kind.name else Status.error.name
  no_result : s.result = none
  no_objective : s.objective = none

theorem ErrorKind.status_name (kind : ErrorKind) : kind.status.name =
    if kind ∈ [.infeasible, .unbounded, .timedOut] then kind.name else Status.error.name := by
  cases kind <;> decide

theorem Solution.reports_ofError (e : SolveError) (stats : SolveStats) :
    (Solution.ofError e stats).Reports e where
  error := rfl
  capability := rfl
  family := rfl
  message := rfl
  status := e.kind.status_name
  no_result := rfl
  no_objective := rfl

theorem Solution.Reports.not_optimal {s : Solution} {e : SolveError} (reports : s.Reports e) :
    s.status ≠ .optimal := by
  intro optimal
  have status := reports.status
  rw [optimal] at status
  revert status
  cases e.kind <;> decide

/-! ### What was raised -/

namespace Raised

/-- What was raised can be reported: it has a kind and a message. -/
inductive Says : Raised → ErrorKind → String → Prop
  | failure (f : Failure) : Says (.failure f) f.kind f.message
  | own (label : String) (kind : ErrorKind) (message : String) :
      Says (.own label (.text kind.name) (some (.text message))) kind message

/-- What was raised cannot be reported, and an exception comes up in its place. -/
inductive Escapes : Raised → Escape → Prop
  | wordless (instead : Escape) : Escapes (.wordless instead) instead
  | interrupt (escape : Escape) : Escapes (.interrupt escape) escape
  | parts {label : String} {kind : Datum} {message : Option Datum} : kind.hasParts = true →
      Escapes (.own label kind message) (.unhashable kind.typeName)
  | unknown {label : String} {kind : Datum} {message : Option Datum} : kind.hasParts = false →
      (∀ known : ErrorKind, kind ≠ .text known.name) →
      Escapes (.own label kind message) (.noKey kind.shown.toOption)
  | speechless {label : String} (kind : ErrorKind) :
      Escapes (.own label (.text kind.name) none) (.lacking label "message")
  | noText {label : String} (kind : ErrorKind) {message : Datum} : message.text? = none →
      Escapes (.own label (.text kind.name) (some message))
        (.refused ⟨[.field "message"], .notText⟩ [])

theorem ofName?_name (kind : ErrorKind) : ErrorKind.ofName? kind.name = some kind := by
  cases kind <;> decide

theorem ofName?_eq_none {word : Option String}
    (unknown : ∀ kind : ErrorKind, word ≠ some kind.name) : word.bind ErrorKind.ofName? = none := by
  rw [Option.bind_eq_none_iff]
  rintro name rfl
  rw [ErrorKind.ofName?, List.find?_eq_none]
  intro kind _ same
  exact unknown kind (congrArg some (of_decide_eq_true same).symm)

/-- The record of an error of a known kind is accepted exactly if its message is a text. -/
theorem solveError_reader (capability : String) (family : Option String) (kind : ErrorKind)
    (message : Datum) : SolveError.reader .values (.object [("kind", .text kind.name),
      ("capability", .text capability), ("family", .optional .text family), ("message", message)]) =
    match message.text? with
    | some text => .ok ⟨kind, capability, family, text⟩
    | none => .failed ⟨[.field "message"], .notText⟩ [] := by
  cases kind <;> cases family <;> cases message <;> rfl

/-- With a kind that is known it is the message that counts. -/
theorem report_of_known (capability : String) (family : Option String) (label : String)
    (kind : ErrorKind) (message : Option Datum) :
    (own label (.text kind.name) message).report capability family = match message with
      | none => .error (.lacking label "message")
      | some message => match message.text? with
        | some text => .ok ⟨kind, capability, family, text⟩
        | none => .error (.refused ⟨[.field "message"], .notText⟩ []) := by
  have known : (some kind.name).bind ErrorKind.ofName? = some kind := ofName?_name kind
  have word : (Datum.text kind.name).word? = .ok (some kind.name) := rfl
  rw [report, word]
  cases message with
  | none => simp only [known, bind, Except.bind, throw, throwThe, MonadExceptOf.throw]
  | some message =>
    simp only [known, bind, Except.bind, solveError_reader]
    cases message.text? <;> rfl

variable {raised : Raised} (capability : String) (family : Option String)

theorem Says.report {kind : ErrorKind} {message : String} (said : raised.Says kind message) :
    raised.report capability family = .ok ⟨kind, capability, family, message⟩ := by
  cases said with
  | failure f => rfl
  | own label kind message => rw [report_of_known]; rfl

theorem Escapes.report {escape : Escape} (escapes : raised.Escapes escape) :
    raised.report capability family = .error escape := by
  cases escapes with
  | wordless instead => rfl
  | interrupt escape => rfl
  | @parts _ kind _ parts =>
    have word : kind.word? = .error (.unhashable kind.typeName) := if_pos parts
    rw [Raised.report, word]
    rfl
  | @unknown _ kind _ whole unknown =>
    have word : kind.word? = .ok kind.text? := if_neg (Bool.eq_false_iff.mp whole)
    have nothing : kind.text?.bind ErrorKind.ofName? = none := by
      refine ofName?_eq_none fun known same => unknown known ?_
      cases kind with
      | text s => exact congrArg Datum.text (Option.some.inj same)
      | _ => cases same
    rw [Raised.report, word]
    simp only [nothing, bind, Except.bind, throw, throwThe, MonadExceptOf.throw]
  | speechless kind => rw [report_of_known]
  | noText kind noText =>
    rw [report_of_known]
    simp only [noText]

/-- Whatever was raised is reported, or an exception comes up. -/
theorem said_or_escapes (raised : Raised) :
    (∃ kind message, raised.Says kind message) ∨ ∃ escape, raised.Escapes escape := by
  cases raised with
  | failure f => exact .inl ⟨_, _, .failure f⟩
  | wordless instead => exact .inr ⟨_, .wordless instead⟩
  | interrupt escape => exact .inr ⟨_, .interrupt escape⟩
  | own label kind message =>
    by_cases parts : kind.hasParts = true
    · exact .inr ⟨_, .parts parts⟩
    · by_cases known : ∃ k : ErrorKind, kind = .text k.name
      · obtain ⟨k, rfl⟩ := known
        cases message with
        | none => exact .inr ⟨_, .speechless k⟩
        | some message =>
          cases message with
          | text said => exact .inl ⟨_, _, .own label k said⟩
          | _ => exact .inr ⟨_, .noText k rfl⟩
      · exact .inr ⟨_, .unknown (Bool.eq_false_iff.mpr parts) fun k same => known ⟨k, same⟩⟩

theorem report_eq_error_iff {escape : Escape} :
    raised.report capability family = .error escape ↔ raised.Escapes escape := by
  refine ⟨fun failed => ?_, Escapes.report capability family⟩
  obtain ⟨kind, message, said⟩ | ⟨other, escapes⟩ := said_or_escapes raised
  · rw [said.report] at failed
    cases failed
  · rw [escapes.report] at failed
    cases failed
    exact escapes

theorem report_eq_ok_iff {e : SolveError} : raised.report capability family = .ok e ↔
    ∃ kind message, raised.Says kind message ∧ e = ⟨kind, capability, family, message⟩ := by
  constructor
  · intro ok
    obtain ⟨kind, message, said⟩ | ⟨escape, escapes⟩ := said_or_escapes raised
    · rw [said.report] at ok
      exact ⟨kind, message, said, (Except.ok.inj ok).symm⟩
    · rw [escapes.report] at ok
      cases ok
  · rintro ⟨kind, message, said, rfl⟩
    exact said.report capability family

end Raised

end Optima
