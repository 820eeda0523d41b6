import RegexInsight.Inference

/-! # Inference from Columns

    Candidate patterns for a column of values, some of which may be
    missing.  The examples are the distinct values in the order of their
    first appearance, as many as the sample size allows; the coverage of a
    candidate counts all values that are not missing. -/

namespace RegexInsight

/-- A named sequence of values with gaps. -/
structure Column where
  name : String
  values : List (Option Text)

/-- Columns side by side. -/
structure Table where
  columns : List Column

/-- Why a table has no column to offer. -/
inductive ColumnError where
  | notNamed
  | unknown (name : String)
  deriving DecidableEq, Repr

namespace ColumnError

def message : ColumnError → String
  | notNamed => "column is required when passing a DataFrame"
  | unknown name => "\"" ++ name ++ "\" not found"

end ColumnError

/-- The column of a name; the name has to be given even where there is only
    one column. -/
def Table.column (t : Table) (name : Option String) : Except ColumnError Column :=
  match name with
  | none => .error .notNamed
  | some name =>
    match t.columns.find? fun c => c.name == name with
    | some column => .ok column
    | none => .error (.unknown name)

namespace Column

/-- The values that are not missing. -/
def present (c : Column) : List Text :=
  c.values.filterMap id

/-- The distinct values in the order of their first appearance. -/
def distinct (c : Column) : List Text :=
  c.present.eraseDups

/-- The distinct values that serve as examples.  A negative size leaves out
    that many at the end. -/
def sample (c : Column) (size : Int) : List Text :=
  if 0 ≤ size then c.distinct.take size.toNat
  else c.distinct.take (c.distinct.length - size.natAbs)

/-- The share of the values that a form accepts. -/
def coverage (c : Column) (form : Form) : Float :=
  share (c.present.filter form.accepts).length c.present.length

/-- The standard sample size. -/
def standardSampleSize : Int := 1000

/-- The best candidates for a column. -/
def infer (config : InferenceConfig) (column : Column) (sampleSize : Int)
    (negatives : List Text) : Except InferenceError (List Candidate) := do
  let examples := column.sample sampleSize
  if examples.isEmpty then throw (.emptyColumn column.name)
  let candidates ← RegexInsight.infer config ⟨examples, negatives⟩
  return candidates.map fun c => { c with coverage := some (column.coverage c.form) }

end Column

end RegexInsight
