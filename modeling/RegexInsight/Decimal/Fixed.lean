import RegexInsight.Decimal.Binary64

/-! # Fixed Decimals

    A double with a fixed number of places, rounded from its exact value
    with a half going to the even neighbour.  A zero has no sign. -/

namespace RegexInsight

namespace Decimal

/-- The magnitude of a double in units of the last of `places` places. -/
def scaled (places : Nat) (d : Dyadic) : Nat :=
  let (num, den) := d.magnitude
  roundHalfEven (num * Nat.pow 10 places) den

/-- The text of a number of units of the last of `places` places. -/
def placesText (places units : Nat) : String :=
  toString (units / Nat.pow 10 places) ++ "." ++ paddedDigits places (units % Nat.pow 10 places)

/-- A double with a fixed number of places. -/
def fixed (places : Nat) (x : Float) : String :=
  match Dyadic.ofFloat? x with
  | none => if x.isNaN then "nan" else if x < 0 then "-inf" else "inf"
  | some d =>
    let units := scaled places d
    if d.negative && units != 0 then "-" ++ placesText places units
    else placesText places units

/-- A double rounded to a number of places, as a double again. -/
def rounded (places : Nat) (x : Float) : Float :=
  match Dyadic.ofFloat? x with
  | none => x
  | some d =>
    let magnitude := Float.ofScientific (scaled places d) true places
    if d.negative then -magnitude else magnitude

end Decimal

end RegexInsight
