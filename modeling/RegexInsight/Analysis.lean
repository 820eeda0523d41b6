import RegexInsight.Backtracking.Verdict
import RegexInsight.Engine
import RegexInsight.Portability

/-! # Analysis

    The analyses of a pattern text.  A full analysis reads the pattern
    once; engine choice, portability and backtracking verdict share its
    profile.  A portability check and a validation are smaller ones.

    Names of dialects are resolved before the pattern is read, so an
    unknown name is reported also for a malformed pattern. -/

namespace RegexInsight

/-- Why an analysis stops. -/
inductive AnalysisError where
  | dialect (error : UnknownDialect)
  | parse (failure : ParseFailure)
  | inconsistent (violation : InvariantViolation)
  | budget (error : BudgetError)
  | oversize (error : OversizeError)
  deriving DecidableEq, Repr

/-- Where patterns are probed: a bench for each pattern, or the message with
    which the pattern is rejected. -/
abbrev Prober := Pattern → Except String (Bench Float)

/-! ## Section 1: Full analysis -/

/-- What is asked of an analysis. -/
structure AnalysisRequest where
  /-- The dialects to judge, in place of those of the configuration. -/
  dialects : Option (List String)
  /-- Whether backtracking is analyzed. -/
  probe : Bool
  /-- The unit to repeat, in place of a derived one. -/
  seed : List CodePoint
  /-- The budget of the probe in seconds, in place of the configured one. -/
  budget : Option Float
  config : AnalysisConfig

/-- The outcome of an analysis. -/
structure Analysis where
  pattern : Text
  profile : FeatureProfile
  engine : EngineVariant
  /-- Why a backtracking engine was chosen. -/
  reasons : List String
  portability : PortabilityReport
  /-- The verdict on backtracking, where it was analyzed. -/
  backtracking : Option (BacktrackVerdict Float)

namespace AnalysisRequest

/-- The ids of the dialects to judge; none stand for all of them. -/
def targets (request : AnalysisRequest) (registry : Registry) :
    Except AnalysisError (Option (List String)) :=
  match request.dialects.or request.config.dialects with
  | none => .ok none
  | some names => ((names.mapM registry.resolve).mapError AnalysisError.dialect).map some

/-- The verdict on the backtracking of a pattern, if it is asked for. -/
def verdict (request : AnalysisRequest) (prober : Prober) (p : Pattern) :
    Except AnalysisError (Option (BacktrackVerdict Float)) := do
  if request.probe then
    let config ← (request.config.probe.withBudget request.budget).mapError .budget
    return some (← (p.backtracking config (prober p) request.seed).mapError .oversize)
  else return none

/-- Analyzes a pattern text. -/
def run (request : AnalysisRequest) (registry : Registry) (prober : Prober)
    (text : Text) : Except AnalysisError Analysis := do
  let targets ← request.targets registry
  let p ← (Pattern.parse text).mapError .parse
  let engine ← p.select.mapError .inconsistent
  let verdict ← request.verdict prober p
  let portability ← (registry.check p.profile targets).mapError .dialect
  return {
    pattern := p.text
    profile := p.profile
    engine := engine
    reasons := EngineSelector.standard.reasons p.profile
    portability := portability
    backtracking := verdict }

end AnalysisRequest

/-! ## Section 2: Portability alone -/

/-- Checks a pattern text against dialects. -/
def Registry.checkText (registry : Registry) (dialects : Option (List String))
    (text : Text) : Except AnalysisError PortabilityReport := do
  let targets ← match dialects with
    | none => pure none
    | some names => ((names.mapM registry.resolve).mapError AnalysisError.dialect).map some
  let p ← (Pattern.parse text).mapError .parse
  (registry.check p.profile targets).mapError .dialect

/-! ## Section 3: Validation -/

/-- What a validation finds. -/
inductive ValidationOutcome where
  | malformed (error : ParseError)
  /-- The pattern can be read; the verdict is that of the dialect, where one
      was given. -/
  | wellFormed (engine : EngineVariant) (verdict : Option Verdict)
  deriving DecidableEq, Repr

/-- The validation of a pattern text. -/
structure Validation where
  pattern : Text
  /-- The id of the dialect that has to support the pattern. -/
  dialect : Option String
  outcome : ValidationOutcome
  deriving DecidableEq, Repr

namespace Validation

/-- The pattern can be read and the dialect supports it. -/
def isValid (v : Validation) : Bool :=
  match v.outcome with
  | .malformed _ => false
  | .wellFormed _ verdict => verdict.all Verdict.isSupported

def error? (v : Validation) : Option ParseError :=
  match v.outcome with
  | .malformed error => some error
  | .wellFormed _ _ => none

def engine? (v : Validation) : Option EngineVariant :=
  match v.outcome with
  | .malformed _ => none
  | .wellFormed engine _ => some engine

def verdict? (v : Validation) : Option Verdict :=
  match v.outcome with
  | .malformed _ => none
  | .wellFormed _ verdict => verdict

/-- How the pattern can be mended. -/
def suggestion? (v : Validation) : Option (List CodePoint) :=
  match v.outcome with
  | .malformed error => some error.suggestion
  | .wellFormed _ verdict =>
    (verdict.bind Verdict.detail?).map fun detail => pointsOf detail.toList

end Validation

/-- The verdict of a registered dialect on a pattern. -/
def Registry.judge (registry : Registry) (id : String) (p : Pattern) :
    Except AnalysisError Verdict :=
  ((registry.get id).mapError .dialect).map fun d => d.judge p.profile

/-- Validates a pattern text; an empty name asks for no dialect.  A malformed
    pattern is an outcome and no error. -/
def Registry.validate (registry : Registry) (dialect : Option String) (text : Text) :
    Except AnalysisError Validation := do
  let target ← match dialect with
    | none => pure none
    | some name =>
      if name.isEmpty then pure none
      else ((registry.resolve name).mapError AnalysisError.dialect).map some
  match Pattern.parse text with
  | .error (.malformed error) => return ⟨text, target, .malformed error⟩
  | .error failure => throw (.parse failure)
  | .ok p =>
    let engine ← p.select.mapError AnalysisError.inconsistent
    let verdict ← target.mapM fun id => registry.judge id p
    return ⟨text, target, .wellFormed engine verdict⟩

end RegexInsight
