import RegexInsight.Form

/-! # Templates

    Well-known formats with their forms: identifiers, dates and times,
    addresses and numbers.  A value has a known format when the form
    accepts it; a pattern is recognized by its text alone. -/

namespace RegexInsight

/-- How tightly a format is specified. -/
inductive TemplatePriority where
  | low | medium | high
  deriving DecidableEq, Repr

namespace TemplatePriority

/-- The weight of a priority. -/
def weight : TemplatePriority → Nat
  | low => 40
  | medium => 60
  | high => 80

end TemplatePriority

/-- A well-known format. -/
structure Template where
  name : String
  description : String
  priority : TemplatePriority
  form : Form

namespace Template

/-- The pattern text of a template. -/
def pattern (t : Template) : Text := t.form.text

/-- Whether a value has the format. -/
def accepts (t : Template) (value : Text) : Bool := t.form.accepts value

/-! ## Section 1: The known formats -/

open Form

def hexDigit : Form :=
  one (.bracket [.range '0' '9', .range 'a' 'f', .range 'A' 'F'])

def digit : Form := one .digit

def char (c : Char) : Form := one (.char c)

/-- A member of a class of ASCII letters, digits and some marks. -/
def letterDigitOr (marks : List Char) : Form :=
  one (.bracket ([.range 'a' 'z', .range 'A' 'Z', .range '0' '9'] ++
    marks.map BracketItem.char))

def uuid : Template where
  name := "uuid"
  description := "UUID"
  priority := .high
  form := sequence [exactly 8 hexDigit, char '-', exactly 4 hexDigit, char '-',
    exactly 4 hexDigit, char '-', exactly 4 hexDigit, char '-', exactly 12 hexDigit]

def macAddress : Template where
  name := "mac_address"
  description := "MAC address"
  priority := .high
  form :=
    let separator := one (.bracket [.char ':', .char '-'])
    sequence [exactly 2 hexDigit, separator, exactly 2 hexDigit,
      exactly 4 (seq separator (exactly 2 hexDigit))]

def hexColor : Template where
  name := "hex_color"
  description := "Hex color"
  priority := .high
  form := seq (char '#') (alt (exactly 3 hexDigit) (exactly 6 hexDigit))

def isoDate : Template where
  name := "iso_date"
  description := "ISO date (YYYY-MM-DD)"
  priority := .medium
  form := sequence [exactly 4 digit, char '-', exactly 2 digit, char '-', exactly 2 digit]

def usDate : Template where
  name := "us_date"
  description := "US date (MM/DD/YYYY)"
  priority := .medium
  form := sequence [exactly 2 digit, char '/', exactly 2 digit, char '/', exactly 4 digit]

def timeLong : Template where
  name := "time_long"
  description := "Time (HH:MM:SS)"
  priority := .medium
  form := sequence [exactly 2 digit, char ':', exactly 2 digit, char ':', exactly 2 digit]

def timeShort : Template where
  name := "time_short"
  description := "Time (HH:MM)"
  priority := .medium
  form := sequence [exactly 2 digit, char ':', exactly 2 digit]

def email : Template where
  name := "email"
  description := "Email address"
  priority := .medium
  form := sequence [atLeast 1 (letterDigitOr ['.', '_', '%', '+', '-']), char '@',
    atLeast 1 (letterDigitOr ['.', '-']), char '.', atLeast 2 (one .letter)]

def ipv4 : Template where
  name := "ipv4"
  description := "IPv4 address"
  priority := .medium
  form :=
    let octet := between 1 3 digit
    sequence [octet, char '.', octet, char '.', octet, char '.', octet]

def url : Template where
  name := "url"
  description := "HTTP(S) URL"
  priority := .medium
  form := sequence [literal ['h', 't', 't', 'p'], maybe (char 's'),
    literal [':', '/', '/'], atLeast 1 (one (.shorthand .notSpace))]

def semver : Template where
  name := "semver"
  description := "Semantic version"
  priority := .medium
  form :=
    let number := atLeast 1 digit
    let label := atLeast 1 (letterDigitOr ['.'])
    sequence [number, char '.', number, char '.', number,
      maybe (seq (char '-') label), maybe (seq (char '+') label)]

def phone : Template where
  name := "phone"
  description := "Phone number"
  priority := .low
  form := sequence [maybe (char '+'), digit,
    atLeast 6 (one (.bracket [.shorthand .digit, .char '-', .shorthand .space,
      .char '(', .char ')', .char '.'])), digit]

/-- The known formats in the order in which they are looked at. -/
def all : List Template :=
  [uuid, macAddress, hexColor, isoDate, usDate, timeLong, timeShort, email, ipv4, url,
   semver, phone]

/-- The template of a name. -/
def ofName? (name : String) : Option Template :=
  all.find? fun t => t.name == name

/-! ## Section 2: Recognition -/

/-- Anchors that may stand before a recognized pattern. -/
def leadingAnchors : List Text := [['^'], ['\\', 'A']]

/-- Anchors that may stand after a recognized pattern. -/
def trailingAnchors : List Text := [['$'], ['\\', 'z'], ['\\', 'Z']]

/-- A pattern without the anchor before it. -/
def withoutLead (pattern : Text) : Text :=
  match leadingAnchors.find? fun anchor => anchor.isPrefixOf pattern with
  | some anchor => pattern.drop anchor.length
  | none => pattern

/-- A pattern without the anchor after it; an escaped one is no anchor. -/
def withoutTail (pattern : Text) : Text :=
  let isAnchor (anchor : Text) : Bool :=
    anchor.isSuffixOf pattern && !('\\' :: anchor).isSuffixOf pattern
  match trailingAnchors.find? isAnchor with
  | some anchor => pattern.take (pattern.length - anchor.length)
  | none => pattern

/-- The known format that a pattern spells, apart from anchors around it. -/
def recognize? (pattern : Text) : Option Template :=
  let body := withoutTail (withoutLead pattern)
  all.find? fun t => t.pattern == pattern || t.pattern == body

/-- The known formats that all values have, the most tightly specified
    first. -/
def detect (values : List Text) : List Template :=
  (all.filter fun t => values.all t.accepts).mergeSort
    fun a b => b.priority.weight ≤ a.priority.weight

end Template

end RegexInsight
