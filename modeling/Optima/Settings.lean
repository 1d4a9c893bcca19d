import Optima.Record.Reader

/-!
Settings. `Settings` are fixed when the capabilities are set up; `Options` belong to one call, and
what they leave open is taken from the settings. Settings can be read from a list of named texts,
such as an environment.
-/

namespace Optima

open Reader

/-- The external solvers that models can be passed to. -/
inductive Backend where
  | ortools
  | highs
  deriving DecidableEq, Repr

namespace Backend

/-- The name of an external solver. -/
def name : Backend → String
  | ortools => "ortools"
  | highs => "highs"

/-- The package that has to be installed for it. -/
def package : Backend → String
  | ortools => "ortools"
  | highs => "scipy"

/-- The external solvers in the order in which they are listed. -/
def all : List Backend := [ortools, highs]

/-- The external solver of a name. -/
def ofName? (name : String) : Option Backend := all.find? (·.name = name)

instance : Inhabited Backend := ⟨ortools⟩

end Backend

/-- The settings. -/
structure Settings where
  enableExternal : Bool
  backend : Backend
  auctionThreshold : Int
  assignmentTolerance : Binary64
  knapsackMemoryBudget : Int
  globalRelabelFrequency : Binary64
  checkpointInterval : Int
  defaultTimeLimit : Option Binary64
  iterationLimit : Option Int

namespace Settings

/-- The tolerance of one part in a thousand million. -/
def standardTolerance : Binary64 := (Decimal.mk 1 (-9)).toBinary64 false

/-- The settings where nothing is set. -/
def standard : Settings where
  enableExternal := false
  backend := .ortools
  auctionThreshold := 64
  assignmentTolerance := standardTolerance
  knapsackMemoryBudget := 256 * 1024 * 1024
  globalRelabelFrequency := 1
  checkpointInterval := 256
  defaultTimeLimit := none
  iterationLimit := none

/-- An external solver by its name. -/
def backendReader : Reader Backend := among (Backend.all.map fun b => (b.name, b))

/-- Settings, each with its own condition. -/
def reader : Reader Settings := record "ProviderConfig" fun fs =>
  Settings.mk <$> fs.withDefault "enable_ffi" standard.enableExternal bool
    <*> fs.withDefault "ffi_backend" standard.backend backendReader
    <*> fs.withDefault "assignment_auction_threshold" standard.auctionThreshold (intFrom 1)
    <*> fs.withDefault "assignment_tolerance" standard.assignmentTolerance realFromZero
    <*> fs.withDefault "knapsack_memory_budget_bytes" standard.knapsackMemoryBudget (intFrom 1)
    <*> fs.withDefault "maxflow_global_relabel_frequency" standard.globalRelabelFrequency
      realAboveZero
    <*> fs.withDefault "checkpoint_interval" standard.checkpointInterval (intFrom 1)
    <*> fs.maybe "default_time_limit_seconds" realFromZero
    <*> fs.maybe "iteration_limit" (intFrom 1)

def write (c : Settings) : Datum := .object [
  ("enable_ffi", .bool c.enableExternal),
  ("ffi_backend", .text c.backend.name),
  ("assignment_auction_threshold", .int c.auctionThreshold),
  ("assignment_tolerance", .real c.assignmentTolerance),
  ("knapsack_memory_budget_bytes", .int c.knapsackMemoryBudget),
  ("maxflow_global_relabel_frequency", .real c.globalRelabelFrequency),
  ("checkpoint_interval", .int c.checkpointInterval),
  ("default_time_limit_seconds", .optional .real c.defaultTimeLimit),
  ("iteration_limit", .optional .int c.iterationLimit)]

/-! ### Settings from an environment -/

/-- The common beginning of the names of environment settings. -/
def variablePrefix : String := "OPTIMIZE_PROVIDER_"

/-- The end of the name of an environment setting, and the field it sets. -/
def fieldOfVariable : List (String × String) := [
  ("FFI", "enable_ffi"),
  ("FFI_BACKEND", "ffi_backend"),
  ("AUCTION_THRESHOLD", "assignment_auction_threshold"),
  ("ASSIGNMENT_TOLERANCE", "assignment_tolerance"),
  ("KNAPSACK_MEMORY_BUDGET", "knapsack_memory_budget_bytes"),
  ("GLOBAL_RELABEL_FREQUENCY", "maxflow_global_relabel_frequency"),
  ("CHECKPOINT_INTERVAL", "checkpoint_interval"),
  ("TIME_LIMIT", "default_time_limit_seconds"),
  ("ITERATION_LIMIT", "iteration_limit")]

/-- The text of a setting, without surrounding white space; none if nothing is left. -/
def variableText (environment : List (String × String)) (suffix : String) : Option String := do
  let (_, raw) ← environment.find? (·.1 = variablePrefix ++ suffix)
  let text := Text.trim Text.isSpace raw.toList
  guard (!text.isEmpty)
  return String.ofList text

/-- The fields that an environment sets. The name of a backend is taken in small letters. -/
def environmentFields (environment : List (String × String)) : List (String × Datum) :=
  fieldOfVariable.filterMap fun (suffix, field) => do
    let text ← variableText environment suffix
    let isName := suffix = "FFI_BACKEND"
    return (field, .text (if isName then String.ofList (text.toList.map Char.toLower) else text))

/-- Settings from an environment. -/
def ofEnvironment (environment : List (String × String)) : Checked Settings :=
  reader .values (.object (environmentFields environment))

end Settings

/-- What one call sets for itself. -/
structure Options where
  timeLimit : Option Binary64
  iterationLimit : Option Int

namespace Options

/-- Nothing set. -/
def none : Options := ⟨.none, .none⟩

def reader : Reader Options := record "SolveOptions" fun fs =>
  Options.mk <$> fs.maybe "time_limit_seconds" realFromZero
    <*> fs.maybe "iteration_limit" (intFrom 1)

def write (o : Options) : Datum := .object [
  ("time_limit_seconds", .optional .real o.timeLimit),
  ("iteration_limit", .optional .int o.iterationLimit)]

end Options

end Optima
