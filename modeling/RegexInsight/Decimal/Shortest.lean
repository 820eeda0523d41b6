import RegexInsight.Decimal.Binary64

/-! # Shortest Decimals

    The shortest decimal that reads back as a given double, and among
    those the nearest to it.  A decimal reads back if it lies in the
    interval of numbers that round to the double: half-way to each
    neighbour, the ends included when the mantissa is even. -/

namespace RegexInsight

namespace Decimal

/-- A decimal `digits · 10 ^ exponent`. -/
structure Scientific where
  digits : Nat
  exponent : Int
  deriving DecidableEq, Repr

/-- The numbers that round to a double, over a common denominator: four
    times the mantissa with the distance to either end. -/
structure RoundingInterval where
  low : Nat
  value : Nat
  high : Nat
  den : Nat
  closed : Bool

/-- The rounding interval of a mantissa and an exponent.  Below a power of
    two the neighbours are twice as close. -/
def roundingInterval (mantissa : Nat) (exponent : Int) : RoundingInterval :=
  let lowGap := if mantissa == Nat.pow 2 52 && exponent > -1074 then 1 else 2
  let scale := if 0 ≤ exponent then Nat.pow 2 exponent.toNat else 1
  let den := if 0 ≤ exponent then 4 else 4 * Nat.pow 2 (-exponent).toNat
  { low := (4 * mantissa - lowGap) * scale
    value := 4 * mantissa * scale
    high := (4 * mantissa + 2) * scale
    den := den
    closed := mantissa % 2 == 0 }

/-- Whether `n / d` lies in the interval. -/
def RoundingInterval.holds (i : RoundingInterval) (n d : Nat) : Bool :=
  if i.closed then i.low * d ≤ n * i.den && n * i.den ≤ i.high * d
  else i.low * d < n * i.den && n * i.den < i.high * d

/-- The point of the grid of multiples of `10 ^ exponent` that lies in the
    interval and is nearest to its value, if one of the value's two
    neighbours on the grid lies in it; of two equally near the even one. -/
def gridPoint? (i : RoundingInterval) (exponent : Int) : Option Nat :=
  let up := if 0 ≤ exponent then Nat.pow 10 exponent.toNat else 1
  let down := if 0 ≤ exponent then 1 else Nat.pow 10 (-exponent).toNat
  let below := i.value * down / (i.den * up)
  let above := below + 1
  let lowHit := below != 0 && i.holds (below * up) down
  let highHit := i.holds (above * up) down
  if lowHit && highHit then
    let toLow := i.value * down - below * up * i.den
    let toHigh := above * up * i.den - i.value * down
    if toLow < toHigh then some below
    else if toHigh < toLow then some above
    else if below % 2 == 0 then some below else some above
  else if lowHit then some below
  else if highHit then some above
  else none

/-- The number of decimal digits before the point of a positive quotient, or
    minus the number of zeros after it. -/
def magnitudeOf (num den : Nat) : Int :=
  if den ≤ num then ((Nat.toDigits 10 (num / den)).length : Int)
  else 1 - ((Nat.toDigits 10 (den / num)).length : Int)

/-- Tries grids from coarse to fine. -/
def refine (i : RoundingInterval) : Nat → Int → Scientific
  | 0, exponent => ⟨(gridPoint? i exponent).getD 0, exponent⟩
  | fuel + 1, exponent =>
    match gridPoint? i exponent with
    | some digits => ⟨digits, exponent⟩
    | none => refine i fuel (exponent - 1)

/-- Moves zeros at the end of the digits into the exponent. -/
def trimZeros : Nat → Scientific → Scientific
  | 0, s => s
  | fuel + 1, s =>
    if s.digits != 0 && s.digits % 10 == 0 then trimZeros fuel ⟨s.digits / 10, s.exponent + 1⟩
    else s

/-- The shortest decimal of a positive double: at most 17 digits are
    needed, and two grids more cover an estimate that is one too high. -/
def shortest (mantissa : Nat) (exponent : Int) : Scientific :=
  let i := roundingInterval mantissa exponent
  trimZeros 20 (refine i 20 (magnitudeOf i.value i.den))

/-- How numbers are written in reports: positional while the decimal point
    falls within 16 places to the left and 4 to the right of the first
    digit, otherwise with an exponent of at least two digits and its sign;
    a number that looks whole keeps a zero after the point. -/
structure NumberFormat where
  least : Int
  greatest : Int
  exponentWidth : Nat

/-- The format of numbers in reports. -/
def reportFormat : NumberFormat := ⟨-4, 16, 2⟩

/-- The text of digits with the place of the decimal point relative to the
    first digit. -/
def positional (digits : String) (point : Int) : String :=
  if point ≤ 0 then
    "0." ++ String.ofList (List.replicate (-point).toNat '0') ++ digits
  else if point.toNat < digits.length then
    String.ofList (digits.toList.take point.toNat) ++ "." ++
      String.ofList (digits.toList.drop point.toNat)
  else
    digits ++ String.ofList (List.replicate (point.toNat - digits.length) '0') ++ ".0"

/-- The text of digits with an exponent. -/
def exponential (format : NumberFormat) (digits : String) (exponent : Int) : String :=
  let mantissa := match digits.toList with
    | [] => "0"
    | [d] => String.singleton d
    | d :: rest => String.singleton d ++ "." ++ String.ofList rest
  let sign := if exponent < 0 then "-" else "+"
  mantissa ++ "e" ++ sign ++ paddedDigits format.exponentWidth exponent.natAbs

/-- The text of a decimal. -/
def Scientific.text (format : NumberFormat) (s : Scientific) : String :=
  let digits := toString s.digits
  let point := s.exponent + digits.length
  if format.least < point && point ≤ format.greatest then positional digits point
  else exponential format digits (point - 1)

/-- The text of a double in reports. -/
def floatText (x : Float) : String :=
  match Dyadic.ofFloat? x with
  | none => if x.isNaN then "NaN" else if x < 0 then "-Infinity" else "Infinity"
  | some d =>
    let sign := if d.negative then "-" else ""
    if d.mantissa == 0 then sign ++ "0.0"
    else sign ++ (shortest d.mantissa d.exponent).text reportFormat

end Decimal

end RegexInsight
