import RegexInsight.Config
import RegexInsight.Text.Number

/-! # Configuration from the Environment

    Settings from environment variables.  A number that cannot be read
    falls back to the standard setting; a number that can be read is
    checked like any other. -/

namespace RegexInsight

/-- Environment variables by name. -/
structure Environment where
  entries : List (String × String)

namespace Environment

/-- The variables that hold settings. -/
def settingNames : List String :=
  ["REGEXSCOPE_PROBE_BUDGET", "REGEXSCOPE_PROBE_BASE_REPETITIONS",
   "REGEXSCOPE_PROBE_MAX_INPUT", "REGEXSCOPE_PROBE_GROWTH_THRESHOLD",
   "REGEXSCOPE_PROBE_START_METHOD", "REGEXSCOPE_PROBE_FORCE_DYNAMIC",
   "REGEXSCOPE_INFER_RANGE_PENALTY", "REGEXSCOPE_INFER_MAX_CANDIDATES",
   "REGEXSCOPE_INFER_TEMPLATES", "REGEXSCOPE_DIALECTS"]

/-- The value of a variable. -/
def find? (env : Environment) (name : String) : Option String :=
  env.entries.lookup name

/-- A variable read as a real number. -/
def real (env : Environment) (name : String) (standard : Float) : Float :=
  ((env.find? name).bind fun value => NumberText.readFloat? value.toList).getD standard

/-- A variable read as an integer. -/
def int (env : Environment) (name : String) (standard : Int) : Int :=
  ((env.find? name).bind fun value => NumberText.readInt? value.toList).getD standard

/-- A variable read as a switch: on for a few words, off for any other. -/
def switch (env : Environment) (name : String) (standard : Bool) : Bool :=
  match env.find? name with
  | none => standard
  | some value =>
    ["1", "true", "yes", "on"].contains (String.ofList (lowercase value.toList))

/-- A variable read as a list of names divided by commas; an empty variable
    names none. -/
def names? (env : Environment) (name : String) : Option (List String) :=
  match env.find? name with
  | none => none
  | some value =>
    if value.isEmpty then none
    else some (((value.splitOn ",").map fun part =>
      String.ofList (trimmed part.toList)).filter fun part => !part.isEmpty)

/-- The probe settings. -/
def probeSettings (env : Environment) : Except DurationError ProbeSettings := do
  let base := ProbeSettings.standard
  let budget ← Duration.ofSeconds (env.real "REGEXSCOPE_PROBE_BUDGET" base.budget.seconds)
  return { base with
    budget := budget
    baseRepetitions := env.int "REGEXSCOPE_PROBE_BASE_REPETITIONS" base.baseRepetitions
    maxInputLength := env.int "REGEXSCOPE_PROBE_MAX_INPUT" base.maxInputLength
    growthThreshold := env.real "REGEXSCOPE_PROBE_GROWTH_THRESHOLD" base.growthThreshold
    startMethod := (env.find? "REGEXSCOPE_PROBE_START_METHOD").getD base.startMethod
    forceDynamic := env.switch "REGEXSCOPE_PROBE_FORCE_DYNAMIC" base.forceDynamic }

/-- The inference settings. -/
def inferenceSettings (env : Environment) : InferenceSettings :=
  let base := InferenceSettings.standard
  { base with
    rangePenalty := env.real "REGEXSCOPE_INFER_RANGE_PENALTY" base.rangePenalty
    maxCandidates := env.int "REGEXSCOPE_INFER_MAX_CANDIDATES" base.maxCandidates
    useTemplates := env.switch "REGEXSCOPE_INFER_TEMPLATES" base.useTemplates }

end Environment

/-- The configuration of an environment. -/
def AnalysisConfig.ofEnvironment (env : Environment) : Except BudgetError AnalysisConfig := do
  let settings ← env.probeSettings.mapError BudgetError.duration
  let probe ← settings.check.mapError BudgetError.config
  let inference ← env.inferenceSettings.check.mapError BudgetError.config
  return ⟨probe, inference, env.names? "REGEXSCOPE_DIALECTS"⟩

end RegexInsight
