import RegexInsight.Pattern.Label

/-! # Literal Text

    Writing a text so that it is read back as a pattern of the same
    literal characters: characters with a meaning outside bracket classes
    get a backslash, and line breaks and tabs are written as escapes. -/

namespace RegexInsight

namespace Literal

/-- The characters with a meaning outside a bracket class. -/
def special : List Char :=
  ['.', '^', '$', '*', '+', '?', '\x7b', '\x7d', '[', ']', '\\', '|', '(', ')']

/-- The written form of a literal character. -/
def escapeChar (c : Char) : Text :=
  if special.contains c then ['\\', c]
  else if c == '\n' then ['\\', 'n']
  else if c == '\t' then ['\\', 't']
  else if c == '\r' then ['\\', 'r']
  else [c]

/-- The written form of a literal text. -/
def escape (text : Text) : Text :=
  text.flatMap escapeChar

end Literal

end RegexInsight
