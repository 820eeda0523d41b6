import RegexInsight.Analysis
import RegexInsight.Inference.Column

/-! # Batches

    The analyses of many patterns, one row each in their order.  A
    malformed pattern gives a row of its own and does not disturb the
    others.

    Workers started by forking can inherit locks from other threads, so a
    batch that probes on several threads starts them from a server. -/

namespace RegexInsight

/-- The row of a pattern. -/
structure BatchRow where
  pattern : Text
  /-- The analysis, unless the pattern is malformed. -/
  outcome : Except ParseError Analysis

namespace BatchRow

/-- The analysis of a pattern that could be read. -/
def analysis? (row : BatchRow) : Option Analysis :=
  row.outcome.toOption

/-- The fault of a pattern that could not be read. -/
def error? (row : BatchRow) : Option ParseError :=
  match row.outcome with
  | .error error => some error
  | .ok _ => none

/-- The verdict on backtracking, where it was analyzed. -/
def verdict? (row : BatchRow) : Option (BacktrackVerdict Float) :=
  row.analysis?.bind Analysis.backtracking

end BatchRow

/-- How a batch runs. -/
structure BatchRequest where
  probe : Bool
  /-- The number of patterns analyzed at the same time. -/
  workers : Int
  config : AnalysisConfig

namespace BatchRequest

/-- A start method that is safe for a number of threads. -/
def safeStartMethod (probe : Bool) (workers : Int) (method : StartMethod) : StartMethod :=
  if probe && 1 < workers && method = .fork then .forkserver else method

/-- The configuration for the workers of a batch. -/
def workerConfig (request : BatchRequest) : AnalysisConfig :=
  let probe := request.config.probe
  { request.config with
    probe := { probe with
      startMethod := safeStartMethod request.probe request.workers probe.startMethod } }

/-- The row of one pattern.  Only a malformed pattern is kept apart; any
    other error ends the batch. -/
def row (request : BatchRequest) (registry : Registry) (prober : Prober) (text : Text) :
    Except AnalysisError BatchRow :=
  let analysis : AnalysisRequest :=
    { dialects := none
      probe := request.probe
      seed := []
      budget := none
      config := request.workerConfig }
  match analysis.run registry prober text with
  | .ok result => .ok ⟨text, .ok result⟩
  | .error (.parse (.malformed error)) => .ok ⟨text, .error error⟩
  | .error error => .error error

/-- The rows of some patterns. -/
def run (request : BatchRequest) (registry : Registry) (prober : Prober)
    (patterns : List Text) : Except AnalysisError (List BatchRow) :=
  patterns.mapM (request.row registry prober)

/-- The rows of the distinct patterns of a column. -/
def runColumn (request : BatchRequest) (registry : Registry) (prober : Prober)
    (column : Column) : Except AnalysisError (List BatchRow) :=
  request.run registry prober column.distinct

end BatchRequest

end RegexInsight
