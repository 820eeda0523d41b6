import RegexInsight.Config.Duration

/-! # Configuration

    The settings of the probe and of the inference.  Settings are checked
    when a configuration is made of them, so that a configuration at hand
    has a positive budget, sensible sizes and a known way to start
    workers. -/

namespace RegexInsight

/-! ## Section 1: Errors -/

/-- Why settings make no configuration. -/
inductive ConfigError where
  | unknownOptions (part : String) (names : List String)
  | budgetNotPositive
  | baseTooSmall
  | inputTooShort
  | thresholdTooLow
  | unknownStartMethod (name : String)
  | penaltyOutOfRange
  | noCandidates
  deriving DecidableEq, Repr

namespace ConfigError

def message : ConfigError → String
  | unknownOptions part names =>
    "Unknown " ++ part ++ " option(s): " ++ ", ".intercalate names
  | budgetNotPositive => "Probe budget must be positive"
  | baseTooSmall => "base_repetitions must be at least 1"
  | inputTooShort => "max_input_length must be >= base_repetitions"
  | thresholdTooLow => "growth_threshold must be greater than 2.0"
  | unknownStartMethod name => "Unknown start method: " ++ name
  | penaltyOutOfRange => "range_penalty must be within [0, 1]"
  | noCandidates => "max_candidates must be at least 1"

end ConfigError

/-! ## Section 2: The probe -/

/-- How worker processes are started. -/
inductive StartMethod where
  | fork | spawn | forkserver
  deriving DecidableEq, Repr

namespace StartMethod

def name : StartMethod → String
  | fork => "fork"
  | spawn => "spawn"
  | forkserver => "forkserver"

/-- The method of a name. -/
def ofName? (name : String) : Option StartMethod :=
  [fork, spawn, forkserver].find? fun method => method.name == name

end StartMethod

/-- Unchecked settings of the probe. -/
structure ProbeSettings where
  budget : Duration
  baseRepetitions : Int
  maxInputLength : Int
  growthThreshold : Float
  minMeasurableSeconds : Float
  startMethod : String
  killGraceSeconds : Float
  forceDynamic : Bool

/-- The configuration of the probe. -/
structure ProbeConfig where
  /-- The time for all attempts on one pattern. -/
  budget : Duration
  /-- The repetitions of the attack unit in the first attempt. -/
  baseRepetitions : Nat
  /-- Inputs grow up to this length. -/
  maxInputLength : Nat
  /-- The growth of the time per doubling that counts as elevated. -/
  growthThreshold : Float
  /-- Shorter times are noise. -/
  minMeasurableSeconds : Float
  startMethod : StartMethod
  /-- The time for a stopped worker to go away. -/
  killGraceSeconds : Float
  /-- Probe also where the static score is zero. -/
  forceDynamic : Bool

namespace ProbeSettings

/-- The settings that hold unless others are given. -/
def standard : ProbeSettings where
  budget := ⟨1000000⟩
  baseRepetitions := 8
  maxInputLength := 1000000
  growthThreshold := 8.0
  minMeasurableSeconds := 5e-4
  startMethod := "fork"
  killGraceSeconds := 0.2
  forceDynamic := false

/-- A budget is positive. -/
def checkBudget (budget : Duration) : Except ConfigError Duration :=
  if budget.microseconds ≤ 0 then .error .budgetNotPositive else .ok budget

/-- The first attempt repeats its unit at least once. -/
def checkBase (repetitions : Int) : Except ConfigError Nat :=
  if repetitions < 1 then .error .baseTooSmall else .ok repetitions.toNat

/-- Inputs may be as long as the first attempt has repetitions. -/
def checkInputLength (repetitions : Nat) (length : Int) : Except ConfigError Nat :=
  if length < repetitions then .error .inputTooShort else .ok length.toNat

/-- Linear growth doubles with every step, so a threshold of two or less
    would mark everything. -/
def checkThreshold (threshold : Float) : Except ConfigError Float :=
  if threshold ≤ 2.0 then .error .thresholdTooLow else .ok threshold

/-- A start method is known by its name. -/
def checkStartMethod (name : String) : Except ConfigError StartMethod :=
  match StartMethod.ofName? name with
  | none => .error (.unknownStartMethod name)
  | some method => .ok method

/-- Checks settings; of several faults the first in the order of the fields
    is reported. -/
def check (s : ProbeSettings) : Except ConfigError ProbeConfig := do
  let budget ← checkBudget s.budget
  let baseRepetitions ← checkBase s.baseRepetitions
  let maxInputLength ← checkInputLength baseRepetitions s.maxInputLength
  let growthThreshold ← checkThreshold s.growthThreshold
  let startMethod ← checkStartMethod s.startMethod
  return {
    budget := budget
    baseRepetitions := baseRepetitions
    maxInputLength := maxInputLength
    growthThreshold := growthThreshold
    minMeasurableSeconds := s.minMeasurableSeconds
    startMethod := startMethod
    killGraceSeconds := s.killGraceSeconds
    forceDynamic := s.forceDynamic }

end ProbeSettings

/-- Why a budget cannot be set. -/
inductive BudgetError where
  | duration (error : DurationError)
  | config (error : ConfigError)
  deriving DecidableEq, Repr

namespace ProbeConfig

/-- The standard configuration. -/
def standard : ProbeConfig where
  budget := ⟨1000000⟩
  baseRepetitions := 8
  maxInputLength := 1000000
  growthThreshold := 8.0
  minMeasurableSeconds := 5e-4
  startMethod := .fork
  killGraceSeconds := 0.2
  forceDynamic := false

/-- A longer budget and a lower threshold: more findings, slower. -/
def strict : ProbeConfig :=
  { standard with budget := ⟨5000000⟩, growthThreshold := 4.5, forceDynamic := true }

/-- A short budget, for interactive use and batches. -/
def fast : ProbeConfig :=
  { standard with budget := ⟨300000⟩, maxInputLength := 100000 }

/-- The budget in seconds. -/
def budgetSeconds (c : ProbeConfig) : Float :=
  c.budget.seconds

/-- The configuration with another budget in seconds, if one is given. -/
def withBudget (c : ProbeConfig) (seconds : Option Float) : Except BudgetError ProbeConfig :=
  match seconds with
  | none => .ok c
  | some seconds =>
    match Duration.ofSeconds seconds with
    | .error e => .error (.duration e)
    | .ok budget =>
      match ProbeSettings.checkBudget budget with
      | .error e => .error (.config e)
      | .ok budget => .ok { c with budget := budget }

end ProbeConfig

/-! ## Section 3: Inference -/

/-- Unchecked settings of the inference. -/
structure InferenceSettings where
  rangePenalty : Float
  maxCandidates : Int
  useTemplates : Bool
  templateConfidenceCap : Float
  anchored : Bool

/-- The configuration of the inference. -/
structure InferenceConfig where
  /-- The confidence lost per position with a range of lengths. -/
  rangePenalty : Float
  /-- The greatest number of candidates returned. -/
  maxCandidates : Nat
  /-- Known formats are candidates too. -/
  useTemplates : Bool
  /-- The highest confidence of a known format. -/
  templateConfidenceCap : Float
  /-- Candidates stand between `^` and `$`. -/
  anchored : Bool

namespace InferenceSettings

/-- The settings that hold unless others are given. -/
def standard : InferenceSettings where
  rangePenalty := 0.1
  maxCandidates := 5
  useTemplates := true
  templateConfidenceCap := 0.95
  anchored := false

/-- A penalty lies between zero and one. -/
def checkPenalty (penalty : Float) : Except ConfigError Float :=
  if 0.0 ≤ penalty && penalty ≤ 1.0 then .ok penalty else .error .penaltyOutOfRange

/-- At least one candidate is returned. -/
def checkCandidates (n : Int) : Except ConfigError Nat :=
  if n < 1 then .error .noCandidates else .ok n.toNat

/-- Checks settings; of several faults the first in the order of the fields
    is reported. -/
def check (s : InferenceSettings) : Except ConfigError InferenceConfig := do
  let rangePenalty ← checkPenalty s.rangePenalty
  let maxCandidates ← checkCandidates s.maxCandidates
  return {
    rangePenalty := rangePenalty
    maxCandidates := maxCandidates
    useTemplates := s.useTemplates
    templateConfidenceCap := s.templateConfidenceCap
    anchored := s.anchored }

end InferenceSettings

namespace InferenceConfig

/-- The standard configuration. -/
def standard : InferenceConfig where
  rangePenalty := 0.1
  maxCandidates := 5
  useTemplates := true
  templateConfidenceCap := 0.95
  anchored := false

/-- The configuration with another greatest number of candidates. -/
def withMaxCandidates (c : InferenceConfig) (n : Int) : Except ConfigError InferenceConfig :=
  (InferenceSettings.checkCandidates n).map fun n => { c with maxCandidates := n }

end InferenceConfig

/-! ## Section 4: The whole -/

/-- All settings of an analysis; without dialects every registered one is
    meant. -/
structure AnalysisConfig where
  probe : ProbeConfig
  inference : InferenceConfig
  dialects : Option (List String)

/-- The standard configuration. -/
def AnalysisConfig.standard : AnalysisConfig :=
  ⟨.standard, .standard, none⟩

end RegexInsight
