import RegexInsight.Backtracking.Extent
import RegexInsight.Backtracking.Probe
import RegexInsight.Config

/-! # Verdicts

    The verdict on the backtracking of a pattern.  A pattern in which
    nothing is ambiguous is safe without a probe.  Any other one is probed
    with growing attack inputs, unless no program compiles it; then the
    static assessment alone makes it suspicious. -/

namespace RegexInsight

/-- What the static assessment contributes to a verdict. -/
structure Findings where
  score : Nat
  constructs : List String
  /-- A rewrite that removes the riskiest ambiguity. -/
  suggestion : Option String
  deriving DecidableEq, Repr

/-- The findings on a pattern. -/
def Pattern.findings (p : Pattern) : Findings :=
  let assessment := p.assess
  ⟨assessment.score, assessment.constructs, assessment.riskiest?.map p.suggestFix⟩

/-- What the samples of a run show. -/
structure Growth (α : Type) where
  risk : BacktrackRisk
  /-- The finite ratios of neighbouring samples. -/
  ratios : List α
  exponent : Option α
  deriving Repr

/-- How times are evaluated beyond division and comparison. -/
structure TimeScale (α : Type) where
  isFinite : α → Bool
  /-- The exponent of growth of samples above a noise floor. -/
  exponent : α → List (Sample α) → Option α

/-- Times in doubles.  Inputs of a probe have two characters or more, so
    that a line always fits. -/
def TimeScale.double : TimeScale Float :=
  ⟨Float.isFinite, fun floor samples => (growthExponent floor samples).toOption.join⟩

/-- The verdict on a pattern. -/
inductive BacktrackVerdict (α : Type) where
  /-- Nothing ambiguous was found and no probe ran. -/
  | unprobed
  /-- No program compiles the pattern. -/
  | uncompiled (findings : Findings) (message : String)
  /-- A probe ran. -/
  | probed (findings : Findings) (attack : Attack) (run : ProbeRun α) (growth : Growth α)

/-! ## Section 1: Judging a run -/

namespace ProbeRun

variable {α : Type} [LE α] [DecidableLE α] [Div α]

/-- The risk that a run shows.  A run with a reported failure proves nothing,
    so it is never safe. -/
def risk (threshold floor : α) (run : ProbeRun α) : BacktrackRisk :=
  let shown := classifySamples threshold floor run.ending.cutOff?.isSome run.samples
  if run.ending.failure?.isSome && shown = .safe then .suspicious else shown

/-- What a run shows. -/
def growth (scale : TimeScale α) (threshold floor : α) (run : ProbeRun α) : Growth α :=
  { risk := run.risk threshold floor
    ratios := (growthRatios floor run.samples).filter scale.isFinite
    exponent := scale.exponent floor run.samples }

end ProbeRun

/-! ## Section 2: Parts of a verdict -/

namespace BacktrackVerdict

variable {α : Type}

def risk : BacktrackVerdict α → BacktrackRisk
  | unprobed => .safe
  | uncompiled _ _ => .suspicious
  | probed _ _ _ growth => growth.risk

def isSafe (v : BacktrackVerdict α) : Bool :=
  v.risk = .safe

def samples : BacktrackVerdict α → List (Sample α)
  | probed _ _ run _ => run.samples
  | _ => []

def calls : BacktrackVerdict α → List (AttemptCall α)
  | probed _ _ run _ => run.calls
  | _ => []

/-- The size and the ceiling at which the probe was cut off. -/
def cutOff? : BacktrackVerdict α → Option (Nat × α)
  | probed _ _ run _ => run.ending.cutOff?
  | _ => none

def staticScore : BacktrackVerdict α → Nat
  | unprobed => 0
  | uncompiled findings _ => findings.score
  | probed findings _ _ _ => findings.score

def constructs : BacktrackVerdict α → List String
  | unprobed => []
  | uncompiled findings _ => findings.constructs
  | probed findings _ _ _ => findings.constructs

def ratios : BacktrackVerdict α → List α
  | probed _ _ _ growth => growth.ratios
  | _ => []

def exponent? : BacktrackVerdict α → Option α
  | probed _ _ _ growth => growth.exponent
  | _ => none

/-- A rewrite, offered only for a pattern that is not safe. -/
def suggestion? : BacktrackVerdict α → Option String
  | unprobed => none
  | uncompiled findings _ => findings.suggestion
  | probed findings _ _ growth => if growth.risk = .safe then none else findings.suggestion

def isProbeSkipped : BacktrackVerdict α → Bool
  | unprobed => true
  | _ => false

def isBudgetExhausted : BacktrackVerdict α → Bool
  | probed _ _ run _ => run.ending.isExhausted
  | _ => false

def note? : BacktrackVerdict α → Option String
  | unprobed => none
  | uncompiled _ message =>
    some ("Backtracking engine could not compile the pattern; probe not run ("
      ++ message ++ ")")
  | probed _ _ run _ => run.ending.note?

/-- The repeated part of the attack inputs. -/
def attackUnit? : BacktrackVerdict α → Option (List CodePoint)
  | probed _ attack _ _ => some attack.unit
  | _ => none

end BacktrackVerdict

/-! ## Section 3: The analysis of a pattern -/

namespace Pattern

/-- The verdict of a probe with an attack on a bench. -/
def probe (p : Pattern) (config : ProbeConfig) (bench : Bench Float) (attack : Attack) :
    BacktrackVerdict Float :=
  let plan := attack.plan config.baseRepetitions config.maxInputLength
  let run := ProbeRun.ofPlan bench attack config.budgetSeconds plan
  .probed p.findings attack run
    (run.growth .double config.growthThreshold config.minMeasurableSeconds)

/-- The verdict on a pattern.  The bench is that of the program that compiles
    the pattern; without one there is the message of the rejection. -/
def backtracking (p : Pattern) (config : ProbeConfig) (bench : Except String (Bench Float))
    (seed : List CodePoint) : Except OversizeError (BacktrackVerdict Float) :=
  if p.assess.score == 0 && !config.forceDynamic then .ok .unprobed
  else
    match bench with
    | .error message => .ok (.uncompiled p.findings message)
    | .ok bench => (p.prepareAttack p.assess.riskiest? seed).map (p.probe config bench)

end Pattern

end RegexInsight
