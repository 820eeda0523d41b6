import RegexInsight.Batch
import RegexInsight.Explanation.Summary
import RegexInsight.Report.Value

/-! # Report Content

    The results of the analyses as report values. -/

namespace RegexInsight

open ReportValue

/-! ## Section 1: Profile and portability -/

/-- What a profile shows of a signal. -/
def FeatureProfile.signalReport (p : FeatureProfile) : Signal → ReportValue
  | .spellings => strings (p.spellings.map NameSpelling.form)
  | .nestedQuantifiers => nat p.nestedQuantifierDepth
  | signal => bool (p.shows signal)

/-- A profile: all signals and the active flags. -/
def FeatureProfile.report (p : FeatureProfile) : ReportValue :=
  object (Signal.all.map (fun signal => (signal.name, p.signalReport signal)) ++
    [("active_flags", strings (p.activeFlags.map FeatureFlag.name))])

def Verdict.report (v : Verdict) : ReportValue :=
  object [("supported", bool v.isSupported),
    ("reason", maybe (fun flag => string flag.name) v.reason?),
    ("detail", maybe string v.detail?)]

def PortabilityReport.report (r : PortabilityReport) : ReportValue :=
  object (r.verdicts.map fun (id, verdict) => (id, verdict.report))

/-! ## Section 2: Backtracking -/

def sampleReport (s : Sample Float) : ReportValue :=
  object [("input_size", nat s.size), ("elapsed_seconds", real s.elapsed)]

def cutOffReport (cutOff : Nat × Float) : ReportValue :=
  object [("input_size", nat cutOff.1), ("ceiling_seconds", real cutOff.2)]

def BacktrackVerdict.report (v : BacktrackVerdict Float) : ReportValue :=
  object [("risk", string v.risk.name),
    ("samples", list (v.samples.map sampleReport)),
    ("aborted", maybe cutOffReport v.cutOff?),
    ("static_score", nat v.staticScore),
    ("constructs", strings v.constructs),
    ("growth_ratios", list (v.ratios.map real)),
    ("growth_exponent", maybe real v.exponent?),
    ("suggestion", maybe string v.suggestion?),
    ("probe_skipped", bool v.isProbeSkipped),
    ("budget_exhausted", bool v.isBudgetExhausted),
    ("note", maybe string v.note?)]

/-! ## Section 3: Analyses -/

def Analysis.report (a : Analysis) : ReportValue :=
  object [("pattern", chars a.pattern),
    ("profile", a.profile.report),
    ("engine", string a.engine.name),
    ("engine_reasons", strings a.reasons),
    ("portability", a.portability.report),
    ("backtracking", maybe BacktrackVerdict.report a.backtracking)]

/-- A parse error with what is known about it. -/
def ParseError.report (e : ParseError) : ReportValue :=
  object [("type", string "ParseError"),
    ("message", text e.message),
    ("category", string "parse"),
    ("severity", string "error"),
    ("cause", null),
    ("context", object [("position", nat e.position), ("pattern", chars e.pattern)]),
    ("position", nat e.position),
    ("suggestion", text e.suggestion)]

def Validation.report (v : Validation) : ReportValue :=
  object [("pattern", chars v.pattern),
    ("valid", bool v.isValid),
    ("engine", maybe (fun engine => string engine.name) v.engine?),
    ("error", maybe ParseError.report v.error?),
    ("dialect", maybe string v.dialect),
    ("verdict", maybe Verdict.report v.verdict?),
    ("suggestion", maybe text v.suggestion?)]

/-- A portability check of a pattern. -/
def portabilitySummary (pattern : Text) (r : PortabilityReport) : ReportValue :=
  object [("pattern", chars pattern), ("portability", r.report)]

/-! ## Section 4: Explanations -/

mutual

/-- A part with the parts of its body. -/
def partReport : Part → ReportValue
  | ⟨kind, token, description, quantifier, group, children⟩ =>
    object [("token", chars token),
      ("type", string kind.name),
      ("description", string description),
      ("quantifier", maybe chars quantifier),
      ("group", maybe nat group),
      ("children", list (partReports children))]

/-- Some parts. -/
def partReports : List Part → List ReportValue
  | [] => []
  | part :: rest => partReport part :: partReports rest

end

def Explanation.report (e : Explanation) : ReportValue :=
  object [("pattern", chars e.pattern),
    ("parts", list (partReports e.parts)),
    ("summary", string e.summary)]

/-! ## Section 5: Candidates and batches -/

/-- A candidate; its confidence is given to four places. -/
def Candidate.report (c : Candidate) : ReportValue :=
  object [("pattern", chars c.pattern),
    ("confidence", real (Decimal.rounded 4 c.confidence)),
    ("description", string c.description),
    ("support", nat c.support),
    ("source", string c.source.name),
    ("coverage", maybe real c.coverage)]

def candidatesReport (candidates : List Candidate) : ReportValue :=
  object [("candidates", list (candidates.map Candidate.report))]

/-- The columns of a row. -/
def BatchRow.columns (row : BatchRow) : List (String × ReportValue) :=
  let portability := row.analysis?.map Analysis.portability
  let suggestion := match row.error? with
    | some error => some error.suggestion
    | none => (row.verdict?.bind BacktrackVerdict.suggestion?).map fun s => pointsOf s.toList
  [("pattern", chars row.pattern),
    ("valid", bool row.error?.isNone),
    ("error", maybe (fun e => text e.message) row.error?),
    ("error_position", maybe (fun e => nat e.position) row.error?),
    ("engine", maybe (fun a => string a.engine.name) row.analysis?),
    ("risk", maybe (fun v => string v.risk.name) row.verdict?),
    ("static_score", maybe (fun v => nat v.staticScore) row.verdict?),
    ("nested_quantifier_depth",
      maybe (fun a => nat a.profile.nestedQuantifierDepth) row.analysis?),
    ("supported_dialects", strings ((portability.map PortabilityReport.supported).getD [])),
    ("unsupported_dialects",
      strings ((portability.map PortabilityReport.unsupported).getD [])),
    ("suggestion", maybe text suggestion)]

def BatchRow.report (row : BatchRow) : ReportValue :=
  object row.columns

def batchReport (rows : List BatchRow) : ReportValue :=
  object [("patterns", list (rows.map BatchRow.report))]

end RegexInsight
