import RegexInsight.Text.Numeral
import RegexInsight.Unicode.Lowercase
import RegexInsight.Unicode.Space

/-! # Numbers in Settings

    Integers and real numbers as they are written in settings: outer
    whitespace is ignored, digits may come from any script, and single
    underscores may group them.  A real number may also be infinite or no
    number. -/

namespace RegexInsight

namespace NumberText

/-- The ASCII digit of a decimal digit; other characters stay. -/
def asciiDigit (c : Char) : Char :=
  match decimalValue? c with
  | some d => Char.ofNat ('0'.toNat + d)
  | none => c

/-- Removes underscores, each of which has to stand between two digits;
    `before` tells whether a digit was just passed. -/
def ungrouped? (before : Bool) : Text → Option Text
  | [] => some []
  | '_' :: rest =>
    match rest with
    | d :: _ => if before && d.isDigit then ungrouped? false rest else none
    | [] => none
  | c :: rest => (ungrouped? c.isDigit rest).map (c :: ·)

/-- The characters that matter of a written number. -/
def prepared? (text : Text) : Option Text :=
  ungrouped? false ((trimmed text).map asciiDigit)

/-- Whether a minus sign is written, and the text after the sign. -/
def splitSign : Text → Bool × Text
  | '-' :: rest => (true, rest)
  | '+' :: rest => (false, rest)
  | other => (false, other)

/-- Reads an integer. -/
def readInt? (text : Text) : Option Int := do
  let (negative, digits) := splitSign (← prepared? text)
  match Numeral.read digits with
  | .ok n => if negative then some (-(n : Int)) else some (n : Int)
  | .error _ => none

/-- A decimal `mantissa · 10 ^ exponent` as a double.  Beyond the range of
    doubles the answer is known from the magnitude alone. -/
def ofDecimal (mantissa : Nat) (exponent : Int) : Float :=
  let magnitude := exponent + (toString mantissa).length
  if mantissa == 0 || magnitude < -330 then 0.0
  else if magnitude > 310 then 1.0 / 0.0
  else if 0 ≤ exponent then Float.ofScientific mantissa false exponent.toNat
  else Float.ofScientific mantissa true (-exponent).toNat

/-- Reads the exponent of a decimal, which may be absent. -/
def readExponent? : Text → Option Int
  | [] => some 0
  | c :: rest =>
    if c == 'e' || c == 'E' then
      let (negative, digits) := splitSign rest
      if digits.isEmpty || !digits.all Char.isDigit then none
      else
        let n := Numeral.value digits
        if negative then some (-(n : Int)) else some (n : Int)
    else none

/-- Reads an unsigned decimal with at least one digit. -/
def readDecimal? (text : Text) : Option Float := do
  let whole := text.takeWhile Char.isDigit
  let afterWhole := text.drop whole.length
  let hasPoint := afterWhole.head? == some '.'
  let fraction := if hasPoint then (afterWhole.drop 1).takeWhile Char.isDigit else []
  let rest := if hasPoint then afterWhole.drop (1 + fraction.length) else afterWhole
  if whole.isEmpty && fraction.isEmpty then none
  else
    let exponent ← readExponent? rest
    return ofDecimal (Numeral.value (whole ++ fraction)) (exponent - fraction.length)

/-- Reads an unsigned real number. -/
def readMagnitude? (text : Text) : Option Float :=
  let word := String.ofList (lowercase text)
  if word == "inf" || word == "infinity" then some (1.0 / 0.0)
  else if word == "nan" then some (0.0 / 0.0)
  else readDecimal? text

/-- Reads a real number. -/
def readFloat? (text : Text) : Option Float := do
  let (negative, magnitude) := splitSign (← prepared? text)
  let value ← readMagnitude? magnitude
  return if negative then -value else value

end NumberText

end RegexInsight
