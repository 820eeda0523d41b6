/-! # Binary Floating Point

    A finite double is a signed integer times a power of two.  Its exact
    value is the ground for every decimal that is written for it.  A quotient
    of integers of any size is the double that is nearest to it. -/

namespace RegexInsight

/-- A number `± mantissa · 2 ^ exponent`. -/
structure Dyadic where
  negative : Bool
  mantissa : Nat
  exponent : Int
  deriving DecidableEq, Repr

namespace Dyadic

/-- The value of a finite double given by its bits; none for an infinity or
    no number. -/
def ofBits? (bits : Nat) : Option Dyadic :=
  let fraction : Nat := bits % Nat.pow 2 52
  let field : Nat := bits / Nat.pow 2 52 % Nat.pow 2 11
  let negative := bits / Nat.pow 2 63 % 2 == 1
  if field == 2047 then none
  else if field == 0 then some ⟨negative, fraction, -1074⟩
  else some ⟨negative, Nat.pow 2 52 + fraction, (field : Int) - 1075⟩

/-- The value of a finite double. -/
def ofFloat? (x : Float) : Option Dyadic :=
  ofBits? x.toBits.toNat

/-- The magnitude as a fraction: numerator and denominator. -/
def magnitude (d : Dyadic) : Nat × Nat :=
  if 0 ≤ d.exponent then (d.mantissa * Nat.pow 2 d.exponent.toNat, 1)
  else (d.mantissa, Nat.pow 2 (-d.exponent).toNat)

end Dyadic

namespace Double

/-- A number as a float of unlimited precision. -/
def unrounded (n : Nat) : Float.Model.UnpackedFloat :=
  if hpos : 0 < n then .finite .positive n 0 hpos else .zero .positive

/-- The double that is nearest to a quotient. -/
def quotient (num den : Nat) : Float :=
  .ofModel (.pack (.div .binary64 (unrounded num) (unrounded den)))

end Double

/-- A quotient rounded to the nearest integer, a half to the even one. -/
def roundHalfEven (num den : Nat) : Nat :=
  let quotient := num / den
  let rest := 2 * (num % den)
  if rest < den then quotient
  else if den < rest then quotient + 1
  else if quotient % 2 == 0 then quotient else quotient + 1

/-- The decimal digits of a number, padded with zeros to a width. -/
def paddedDigits (width n : Nat) : String :=
  let digits := toString n
  String.ofList (List.replicate (width - digits.length) '0') ++ digits

end RegexInsight
