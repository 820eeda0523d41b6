import RegexInsight.Report.Content

/-! # Sheets

    Batches as comma-separated values: a line with the names of the
    columns and a line for each row.  A field is quoted when it holds a
    comma, a quote or a line break, and when it is an empty text, which
    tells it from a missing one.  A list is one field with its items
    joined by commas. -/

namespace RegexInsight

namespace Sheet

/-- Whether a text has to be quoted. -/
def needsQuotes (points : List CodePoint) : Bool :=
  points.isEmpty ||
    points.any (pointsOf [',', '"', '\n', '\r']).contains

/-- A quoted text, in which every quote is written twice. -/
def quote (points : List CodePoint) : List CodePoint :=
  let mark := '"'.toNat
  [mark] ++ points.flatMap (fun c => if c = mark then [mark, mark] else [c]) ++ [mark]

/-- The field of a text. -/
def textField (points : List CodePoint) : List CodePoint :=
  if needsQuotes points then quote points else points

/-- The text of an item of a list. -/
def itemText : ReportValue → List CodePoint
  | .text points => points
  | _ => []

/-- The field of a value. -/
def field : ReportValue → List CodePoint
  | .null => []
  | .text points => textField points
  | .bool value => pointsOf (if value then "true" else "false").toList
  | .int value => pointsOf (toString value).toList
  | .real value => pointsOf (Decimal.floatText value).toList
  | .list items => textField ([','.toNat].intercalate (items.map itemText))
  | .object _ => []

/-- A line of fields. -/
def line (fields : List (List CodePoint)) : List CodePoint :=
  [','.toNat].intercalate fields ++ ['\n'.toNat]

/-- The names of the columns of a batch. -/
def columnNames : List String :=
  ["pattern", "valid", "error", "error_position", "engine", "risk", "static_score",
   "nested_quantifier_depth", "supported_dialects", "unsupported_dialects", "suggestion"]

/-- A batch as a sheet. -/
def ofRows (rows : List BatchRow) : List CodePoint :=
  line (columnNames.map fun name => pointsOf name.toList) ++
    rows.flatMap fun row => line (row.columns.map fun column => field column.2)

end Sheet

end RegexInsight
