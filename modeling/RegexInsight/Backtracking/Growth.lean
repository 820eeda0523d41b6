import RegexInsight.Decimal.Fixed

/-! # Growth

    How the time of an attempt grows with the size of its input.  The
    inputs of a probe double from step to step, so the time of a linear
    match doubles as well; a step whose time grows by a threshold or more
    is elevated.  Two elevated steps in a row are taken for catastrophic
    backtracking, a single one for a suspicion.

    Times are numbers of any type that can be divided and compared. -/

namespace RegexInsight

/-- How likely a pattern is to backtrack without bound, in rising order. -/
inductive BacktrackRisk where
  | safe | suspicious | catastrophic
  deriving DecidableEq, Repr

namespace BacktrackRisk

/-- The name of a risk in reports. -/
def name : BacktrackRisk → String
  | safe => "safe"
  | suspicious => "suspicious"
  | catastrophic => "catastrophic"

/-- The place of a risk in the order. -/
def rank : BacktrackRisk → Nat
  | safe => 0
  | suspicious => 1
  | catastrophic => 2

end BacktrackRisk

/-- The time of one completed attempt. -/
structure Sample (α : Type) where
  size : Nat
  elapsed : α
  deriving DecidableEq, Repr

/-! ## Section 1: Ratios -/

section Ratios

variable {α : Type} [LE α] [DecidableLE α] [Div α]

/-- A time, raised to the noise floor if it is below. -/
def floored (floor time : α) : α :=
  if time ≤ floor then floor else time

/-- By how much the time grew from one sample to the next. -/
def growthRatio (floor : α) (earlier later : Sample α) : α :=
  later.elapsed / floored floor earlier.elapsed

/-- The ratios of neighbouring samples. -/
def growthRatios (floor : α) : List (Sample α) → List α
  | earlier :: later :: rest =>
    growthRatio floor earlier later :: growthRatios floor (later :: rest)
  | _ => []

/-- A step is elevated when its ratio reaches the threshold and its later
    time is no noise. -/
def isElevated (threshold floor : α) (earlier later : Sample α) : Bool :=
  threshold ≤ growthRatio floor earlier later && floor ≤ later.elapsed

/-- Which steps are elevated. -/
def elevatedSteps (threshold floor : α) : List (Sample α) → List Bool
  | earlier :: later :: rest =>
    isElevated threshold floor earlier later :: elevatedSteps threshold floor (later :: rest)
  | _ => []

/-- Two neighbours are both true. -/
def twoInARow : List Bool → Bool
  | a :: b :: rest => (a && b) || twoInARow (b :: rest)
  | _ => false

/-- The risk that samples show; an aborted run is catastrophic by itself. -/
def classifySamples (threshold floor : α) (aborted : Bool) (samples : List (Sample α)) :
    BacktrackRisk :=
  let elevated := elevatedSteps threshold floor samples
  if aborted then .catastrophic
  else if twoInARow elevated then .catastrophic
  else if elevated.any id then .suspicious
  else .safe

end Ratios

/-! ## Section 2: Exponent -/

/-- Why no line fits some samples. -/
inductive FitError where
  /-- A size does not fit into an unsigned word of 64 bits. -/
  | beyondWord
  /-- The logarithm of a size is infinite, or all of them are zero. -/
  | degenerate
  deriving DecidableEq, Repr

/-- Points in the plane of which a line is wanted. -/
abbrev Points := List (Float × Float)

namespace Points

/-- The sum of a quantity over all points. -/
def total (points : Points) (quantity : Float × Float → Float) : Float :=
  (points.map quantity).foldl (· + ·) 0.0

/-- The number of points. -/
def count (points : Points) : Float :=
  points.length.toFloat

/-- The length of the vector of abscissas. -/
def norm (points : Points) : Float :=
  (points.total fun (x, _) => x * x).sqrt

/-- The mean abscissa. -/
def meanX (points : Points) : Float :=
  points.total Prod.fst / points.count

/-- The mean ordinate. -/
def meanY (points : Points) : Float :=
  points.total Prod.snd / points.count

/-- The sum of the squared distances from the mean abscissa. -/
def spread (points : Points) : Float :=
  let mean := points.meanX
  points.total fun (x, _) => (x - mean) * (x - mean)

/-- The cosine of the angle between the vector of abscissas and that of
    ones. -/
def tilt (points : Points) : Float :=
  points.total Prod.fst / (points.norm * points.count.sqrt)

/-- The distance from one to the next double. -/
def epsilon : Float := 2.220446049250313e-16

/-- Whether the abscissas differ by no more than rounding, so that the
    points do not determine a slope. -/
def areStacked (points : Points) : Bool :=
  points.spread.sqrt / points.norm ≤ points.count * epsilon * (1.0 + points.tilt)

/-- The slope of the least-squares line. -/
def regression (points : Points) : Float :=
  let meanX := points.meanX
  let meanY := points.meanY
  (points.total fun (x, y) => (x - meanX) * (y - meanY)) / points.spread

/-- Of all lines that fit stacked points equally well, the slope of the one
    whose slope and intercept, each in the scale of its vector, are
    smallest. -/
def smallestSlope (points : Points) : Float :=
  let projections := (points.total fun (x, y) => x * y) / points.norm +
    points.total Prod.snd / points.count.sqrt
  projections / (2.0 * (1.0 + points.tilt) * points.norm)

/-- The slope of the line that fits best; no number if an ordinate is not
    finite. -/
def slope (points : Points) : Except FitError Float :=
  if !points.norm.isFinite || points.norm == 0.0 then .error .degenerate
  else if !(points.total Prod.snd).isFinite then .ok (0.0 / 0.0)
  else if points.areStacked then .ok points.smallestSlope
  else .ok points.regression

end Points

/-- The largest unsigned word of 64 bits. -/
def maxUnsignedWord : Nat := 18446744073709551615

/-- The exponent of the power law that fits the samples above the noise
    floor best; at least three of them are needed. -/
def growthExponent (floor : Float) (samples : List (Sample Float)) :
    Except FitError (Option Float) :=
  let usable := samples.filter fun s => floor ≤ s.elapsed
  if usable.length < 3 then .ok none
  else if usable.any fun s => maxUnsignedWord < s.size then .error .beyondWord
  else
    let points : Points := usable.map fun s => (s.size.toFloat.log, s.elapsed.log)
    points.slope.map some

end RegexInsight
