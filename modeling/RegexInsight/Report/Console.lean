import RegexInsight.Report.Content

/-! # Console

    Lines for a terminal.  What a terminal would act on is taken out of a
    line, and tabs are set out to columns of eight.

    Text in square brackets can be markup.  A foreign text on a line is
    protected, so that it shows no markup of its own; a backslash before a
    bracket that could not be markup anyway is taken for a protection and
    does not show, and a single one at the end of a text shows twice. -/

namespace RegexInsight

namespace Console

/-! ## Section 1: Foreign text -/

/-- The characters with which markup in brackets begins. -/
def beginsMarkup (c : Char) : Bool :=
  c.isLower || ['#', '/', '@'].contains c

/-- The length of the bracketed markup at the start of a text. -/
def markupLength? : Text → Option Nat
  | '[' :: c :: rest =>
    if beginsMarkup c then
      let body := rest.takeWhile fun c => c != ']' && c != '['
      if (rest.drop body.length).head? = some ']' then some (body.length + 3) else none
    else none
  | _ => none

/-- The length of the backslashes at the start of a text together with the
    markup right after them. -/
def protectedLength? (text : Text) : Option Nat :=
  let backslashes := (text.takeWhile (· == '\\')).length
  (markupLength? (text.drop backslashes)).map (backslashes + ·)

/-- Shows a text; the first `verbatim` characters stay as they are. -/
def shownAfter (verbatim : Nat) : Text → Text
  | [] => []
  | c :: rest =>
    match verbatim with
    | n + 1 => c :: shownAfter n rest
    | 0 =>
      match protectedLength? (c :: rest) with
      | some length => c :: shownAfter (length - 1) rest
      | none =>
        if c == '\\' && rest.head? == some '[' then shownAfter 0 rest
        else c :: shownAfter 0 rest

/-- A foreign text as it shows on a line. -/
def shown (text : Text) : Text :=
  let ends := text.reverse
  if ends.head? = some '\\' && ends[1]? ≠ some '\\' then shownAfter 0 text ++ ['\\']
  else shownAfter 0 text

/-! ## Section 2: Lines -/

/-- Characters that a terminal would act on: bell, backspace, vertical tab,
    form feed and carriage return. -/
def isControl (c : Char) : Bool :=
  ['\x07', '\x08', '\x0b', '\x0c', '\r'].contains c

/-- Sets tabs out to columns of eight, from a column on. -/
def expandTabs (column : Nat) : Text → Text
  | [] => []
  | '\t' :: rest =>
    let width := 8 - column % 8
    List.replicate width ' ' ++ expandTabs (column + width) rest
  | '\n' :: rest => '\n' :: expandTabs 0 rest
  | c :: rest => c :: expandTabs (column + 1) rest

/-- A line as it is written. -/
def line (text : Text) : Text :=
  expandTabs 0 (text.filter fun c => !isControl c) ++ ['\n']

/-- Code points as text; a surrogate is written as an escape. -/
def readable (points : List CodePoint) : Text :=
  points.flatMap fun c =>
    if isSurrogate c then ReportValue.unitEscape c else [Char.ofNat c]

/-! ## Section 3: Validation -/

/-- The lines on an error: what is wrong, and a mark below the place. -/
def errorLines (pattern : Text) (e : ParseError) : List Text :=
  ["✗ Invalid pattern: ".toList ++ shown (readable e.message),
    [' ', ' '] ++ shown pattern,
    [' ', ' '] ++ List.replicate e.position ' ' ++ ['^']]

/-- The line on a pattern that can be read. -/
def verdictLine (v : Validation) (engine : EngineVariant) : Text :=
  let dialect := v.dialect.getD ""
  let text :=
    if !v.isValid then "✗ Not supported by " ++ dialect
    else if v.dialect.isSome then
      "✓ Valid for " ++ dialect ++ " (engine: " ++ engine.name ++ ")"
    else "✓ Valid (engine: " ++ engine.name ++ ")"
  text.toList

/-- A validation on the console. -/
def validation (v : Validation) : Text :=
  let lines := match v.outcome with
    | .malformed error => errorLines v.pattern error
    | .wellFormed engine _ => [verdictLine v engine]
  let suggestion := v.suggestion?.toList.map fun s =>
    "  Suggestion: ".toList ++ shown (readable s)
  (lines ++ suggestion).flatMap line

end Console

end RegexInsight
