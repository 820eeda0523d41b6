import RegexInsight.Decimal.Binary64

/-! # Durations

    A length of time in whole microseconds.  A number of seconds becomes a
    duration by taking the whole seconds and the fraction apart; the
    fraction is rounded to microseconds with a half going to the even
    one. -/

namespace RegexInsight

/-- A length of time. -/
structure Duration where
  microseconds : Int
  deriving DecidableEq, Repr, Inhabited

/-- Why a number of seconds is no duration. -/
inductive DurationError where
  | infinite
  | notANumber
  /-- The duration has more days than can be counted. -/
  | tooManyDays (days : Int)
  /-- The days do not even fit into a signed word of 32 bits. -/
  | beyondWord
  deriving DecidableEq, Repr

namespace Duration

/-- The most days of a duration. -/
def maxDays : Int := 999999999

/-- Whether a number fits into a signed word of 32 bits. -/
def fitsWord (n : Int) : Bool :=
  -2147483648 ≤ n && n ≤ 2147483647

/-- The microseconds of a day. -/
def dayMicroseconds : Int := 86400000000

/-- A positive number of seconds in microseconds: the whole part exactly,
    the product of the fraction and a million rounded. -/
def wholeAndFraction (x : Float) : Nat :=
  match Dyadic.ofFloat? x with
  | none => 0
  | some d =>
    let (num, den) := d.magnitude
    let millionfold := Double.quotient (num % den) den * 1000000.0
    let rounded := match Dyadic.ofFloat? millionfold with
      | some d => roundHalfEven d.magnitude.1 d.magnitude.2
      | none => 0
    num / den * 1000000 + rounded

/-- The duration of a number of seconds. -/
def ofSeconds (x : Float) : Except DurationError Duration :=
  if x.isNaN then .error .notANumber
  else if x.isInf then .error .infinite
  else
    let magnitude : Int := wholeAndFraction x.abs
    let micros := if x < 0 then -magnitude else magnitude
    let days := micros.fdiv dayMicroseconds
    if !fitsWord days then .error .beyondWord
    else if days.natAbs > maxDays.toNat then .error (.tooManyDays days)
    else .ok ⟨micros⟩

/-- A duration in seconds, the nearest double. -/
def seconds (d : Duration) : Float :=
  let magnitude := Float.ofScientific d.microseconds.natAbs true 6
  if d.microseconds < 0 then -magnitude else magnitude

end Duration

end RegexInsight
