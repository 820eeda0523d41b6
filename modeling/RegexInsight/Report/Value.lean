import RegexInsight.CharSet
import RegexInsight.Decimal.Shortest
import RegexInsight.Text.Quoted

/-! # Report Values

    Reports are made of nested values: numbers, texts, lists and objects
    with named fields in a fixed order.  They are written as JSON over
    several lines, two columns of indentation for each level, with every
    character outside printable ASCII escaped. -/

namespace RegexInsight

/-- A value in a report. -/
inductive ReportValue where
  | null
  | bool (value : Bool)
  | int (value : Int)
  | real (value : Float)
  | text (value : List CodePoint)
  | list (items : List ReportValue)
  | object (fields : List (String × ReportValue))

namespace ReportValue

/-! ## Section 1: Building -/

def nat (n : Nat) : ReportValue := int n

def string (s : String) : ReportValue := text (pointsOf s.toList)

def chars (t : Text) : ReportValue := text (pointsOf t)

def strings (items : List String) : ReportValue := list (items.map string)

/-- A value that may be missing. -/
def maybe {α : Type} (value : α → ReportValue) : Option α → ReportValue
  | none => null
  | some a => value a

/-! ## Section 2: Texts -/

/-- A sixteen-bit unit by its code. -/
def unitEscape (unit : Nat) : Text :=
  ['\\', 'u'] ++ hexText 4 unit

/-- A code point by one unit, or by two above the first plane. -/
def codeEscape (c : CodePoint) : Text :=
  if c < 0x10000 then unitEscape c
  else unitEscape (0xD800 + (c - 0x10000) / 0x400) ++ unitEscape (0xDC00 + (c - 0x10000) % 0x400)

/-- The written form of a code point in a text. -/
def escapePoint (c : CodePoint) : Text :=
  if c = '"'.toNat then ['\\', '"']
  else if c = '\\'.toNat then ['\\', '\\']
  else if c = 0x08 then ['\\', 'b']
  else if c = 0x09 then ['\\', 't']
  else if c = 0x0A then ['\\', 'n']
  else if c = 0x0C then ['\\', 'f']
  else if c = 0x0D then ['\\', 'r']
  else if 0x20 ≤ c && c ≤ 0x7E then [Char.ofNat c]
  else codeEscape c

/-- A text between quotes. -/
def quoted (points : List CodePoint) : Text :=
  ['"'] ++ points.flatMap escapePoint ++ ['"']

/-! ## Section 3: Values -/

/-- A new line, indented to a level. -/
def lineBreak (level : Nat) : Text :=
  '\n' :: List.replicate (2 * level) ' '

mutual

/-- The written form of a value at a level. -/
def render (level : Nat) : ReportValue → Text
  | null => "null".toList
  | bool value => (if value then "true" else "false").toList
  | int value => (toString value).toList
  | real value => (Decimal.floatText value).toList
  | text value => quoted value
  | list [] => ['[', ']']
  | list (item :: rest) =>
    ['['] ++ lineBreak (level + 1) ++ item.render (level + 1) ++ renderItems (level + 1) rest
      ++ lineBreak level ++ [']']
  | object [] => ['{', '}']
  | object ((name, value) :: rest) =>
    ['{'] ++ lineBreak (level + 1) ++ quoted (pointsOf name.toList) ++ [':', ' ']
      ++ value.render (level + 1) ++ renderFields (level + 1) rest ++ lineBreak level ++ ['}']

/-- The items of a list after the first one. -/
def renderItems (level : Nat) : List ReportValue → Text
  | [] => []
  | item :: rest =>
    [','] ++ lineBreak level ++ item.render level ++ renderItems level rest

/-- The fields of an object after the first one. -/
def renderFields (level : Nat) : List (String × ReportValue) → Text
  | [] => []
  | (name, value) :: rest =>
    [','] ++ lineBreak level ++ quoted (pointsOf name.toList) ++ [':', ' ']
      ++ value.render level ++ renderFields level rest

end

/-- A whole report. -/
def document (value : ReportValue) : Text :=
  value.render 0

end ReportValue

end RegexInsight
