import RegexInsight.Pattern.Label
import RegexInsight.Unicode.Digit

/-! # Numerals

    Decimal numerals in any script.  Reading one fails on a character that
    is no decimal digit, and on more digits than a number may have; writing
    one fails on a number that needs more digits than that. -/

namespace RegexInsight

/-- Why a text is not read as a number, or a number not written. -/
inductive NumeralError where
  /-- Some character is no decimal digit. -/
  | notDecimal (text : Text)
  /-- There are too many digits. -/
  | tooLong (digits : Nat)
  /-- The number needs too many digits. -/
  | tooLarge
  deriving DecidableEq, Repr

namespace Numeral

/-- The most digits that a number may be written with. -/
def maxDigits : Nat := 4300

/-- The value of decimal digits, the most significant first. -/
def value (digits : Text) : Nat :=
  digits.foldl (fun total c => 10 * total + (decimalValue? c).getD 0) 0

/-- Reads an unsigned numeral; digits too many are reported before what
    follows them is looked at. -/
def read (text : Text) : Except NumeralError Nat :=
  let digits := (text.takeWhile isDecimal).length
  if digits > maxDigits then .error (.tooLong digits)
  else if text.isEmpty || digits < text.length then .error (.notDecimal text)
  else .ok (value text)

/-- Writes a number in ASCII digits. -/
def write (n : Nat) : Except NumeralError Text :=
  let digits := (toString n).toList
  if digits.length > maxDigits then .error .tooLarge else .ok digits

end Numeral

end RegexInsight
