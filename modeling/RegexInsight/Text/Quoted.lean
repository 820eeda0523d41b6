import RegexInsight.Pattern.Label
import RegexInsight.Unicode.Printable

/-! # Quoted Text

    The form in which reports quote a text: between single quotes, or
    between double quotes if the text has single ones and no double ones.
    The quote in use and the backslash are escaped, line breaks and tabs
    have short escapes, and whatever else is not printable is written by
    its code in two, four or eight hexadecimal digits. -/

namespace RegexInsight

/-- The lower-case hexadecimal digits of a number, padded with zeros to a
    width. -/
def hexText (width n : Nat) : Text :=
  let digits := Nat.toDigits 16 n
  List.replicate (width - digits.length) '0' ++ digits

namespace Quoted

/-- The quote that encloses a text. -/
def quoteFor (text : Text) : Char :=
  if text.contains '\'' && !text.contains '"' then '"' else '\''

/-- The code of a character that is not printable. -/
def codeOf (c : Char) : Text :=
  let n := c.toNat
  if n < 0x100 then ['\\', 'x'] ++ hexText 2 n
  else if n < 0x10000 then ['\\', 'u'] ++ hexText 4 n
  else ['\\', 'U'] ++ hexText 8 n

/-- The written form of a character between quotes. -/
def escapeChar (quote c : Char) : Text :=
  if c == quote || c == '\\' then ['\\', c]
  else if c == '\n' then ['\\', 'n']
  else if c == '\t' then ['\\', 't']
  else if c == '\r' then ['\\', 'r']
  else if isPrintable c.toNat then [c]
  else codeOf c

/-- A text in quotes. -/
def ofText (text : Text) : Text :=
  let quote := quoteFor text
  [quote] ++ text.flatMap (escapeChar quote) ++ [quote]

end Quoted

end RegexInsight
