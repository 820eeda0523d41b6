import RegexInsight.Config
import RegexInsight.Form.Template
import RegexInsight.Inference.Shape

/-! # Inference

    Candidate patterns for example texts.  Texts of one shape share a
    candidate, and every known format that all examples have is a
    candidate too.  The confidence of a candidate tells how much of the
    evidence it explains; candidates come with the most confident first,
    and no pattern comes twice. -/

namespace RegexInsight

/-! ## Section 1: Candidates -/

/-- Where a candidate comes from. -/
inductive CandidateSource where
  | shape | template
  deriving DecidableEq, Repr

namespace CandidateSource

/-- The name of a source in reports. -/
def name : CandidateSource → String
  | shape => "shape"
  | template => "template"

end CandidateSource

/-- A pattern offered for some examples. -/
structure Candidate where
  pattern : Text
  /-- What the pattern accepts as a whole. -/
  form : Form
  confidence : Float
  description : String
  /-- The number of examples that the candidate was made from. -/
  support : Nat
  source : CandidateSource
  /-- The share of the values of a column that the pattern accepts, where
      there is a column. -/
  coverage : Option Float

/-- What candidates are judged by. -/
structure Evidence where
  examples : List Text
  negatives : List Text

/-- Examples that are too few. -/
inductive InferenceError where
  | noExamples
  | emptyColumn (name : String)
  deriving DecidableEq, Repr

namespace InferenceError

def message : InferenceError → String
  | noExamples => "At least one example is required"
  | emptyColumn name => "Column '" ++ name ++ "' has no non-null values"

end InferenceError

/-! ## Section 2: Confidence -/

/-- A share of a whole. -/
def share (part whole : Nat) : Float :=
  Double.quotient part whole

/-- The share of the negatives that a form accepts. -/
def falsePositiveRate (form : Form) (negatives : List Text) : Float :=
  if negatives.isEmpty then 0.0
  else share (negatives.filter form.accepts).length negatives.length

/-- A number between zero and one; what is no number becomes zero. -/
def clamped (x : Float) : Float :=
  let low := if 0.0 < x then x else 0.0
  if low < 1.0 then low else 1.0

/-- The confidence in a shape that some of the examples have. -/
def shapeConfidence (config : InferenceConfig) (evidence : Evidence) (group : Nat)
    (shape : ShapeForm) : Float :=
  clamped (share group evidence.examples.length
    * (1.0 - config.rangePenalty * shape.ranged.toFloat)
    * (1.0 - falsePositiveRate shape.form evidence.negatives))

/-- The confidence in a known format. -/
def templateConfidence (config : InferenceConfig) (evidence : Evidence) (form : Form) :
    Float :=
  let confidence := 1.0 - falsePositiveRate form evidence.negatives
  if confidence < config.templateConfidenceCap then confidence
  else config.templateConfidenceCap

/-! ## Section 3: Making candidates -/

/-- The pattern text of a form, between anchors if the configuration asks for
    them. -/
def finished (config : InferenceConfig) (form : Form) : Text :=
  if config.anchored then ['^'] ++ form.text ++ ['$'] else form.text

/-- Puts a text into the group of its shape, or into a new last one. -/
def addToGroups (runs : List Run) : List (List (List Run)) → List (List (List Run))
  | [] => [[runs]]
  | group :: rest =>
    if (group.headD []).map Run.key = runs.map Run.key then (group ++ [runs]) :: rest
    else group :: addToGroups runs rest

/-- The runs of some texts grouped by shape, in the order of first
    appearance. -/
def shapeGroups (texts : List Text) : List (List (List Run)) :=
  texts.foldl (fun groups text => addToGroups (Run.split text) groups) []

/-- The candidate of a shape group. -/
def shapeCandidate (config : InferenceConfig) (evidence : Evidence)
    (group : List (List Run)) : Candidate :=
  let shape := ShapeForm.ofRuns group
  { pattern := finished config shape.form
    form := shape.form
    confidence := shapeConfidence config evidence group.length shape
    description := "Shape shared by " ++ toString group.length ++ " of "
      ++ toString evidence.examples.length ++ " example(s)"
    support := group.length
    source := .shape
    coverage := none }

/-- The candidate of a known format. -/
def templateCandidate (config : InferenceConfig) (evidence : Evidence) (t : Template) :
    Candidate :=
  { pattern := finished config t.form
    form := t.form
    confidence := templateConfidence config evidence t.form
    description := t.description
    support := evidence.examples.length
    source := .template
    coverage := none }

/-- The candidates of shapes. -/
def shapeCandidates (config : InferenceConfig) (evidence : Evidence) : List Candidate :=
  (shapeGroups evidence.examples).map (shapeCandidate config evidence)

/-- The candidates of known formats, unless they are switched off. -/
def templateCandidates (config : InferenceConfig) (evidence : Evidence) : List Candidate :=
  if config.useTemplates then
    (Template.detect evidence.examples).map (templateCandidate config evidence)
  else []

/-! ## Section 4: Ranking -/

/-- Keeps the first candidate of every pattern. -/
def distinctPatterns (candidates : List Candidate) : List Candidate :=
  candidates.foldl
    (fun kept c => if kept.any fun k => k.pattern == c.pattern then kept else kept ++ [c]) []

/-- A candidate can stand before another one that it is as good as; a
    confidence that is no number is the worst. -/
def Candidate.notAfter (a b : Candidate) : Bool :=
  b.confidence ≤ a.confidence || b.confidence.isNaN

/-- Candidates by falling confidence, equal ones in their order. -/
def ranked (candidates : List Candidate) : List Candidate :=
  candidates.mergeSort Candidate.notAfter

/-- All candidates for some evidence. -/
def inferAll (config : InferenceConfig) (evidence : Evidence) :
    Except InferenceError (List Candidate) :=
  if evidence.examples.isEmpty then .error .noExamples
  else .ok (distinctPatterns (ranked
    (shapeCandidates config evidence ++ templateCandidates config evidence)))

/-- The best candidates, as many as the configuration allows. -/
def infer (config : InferenceConfig) (evidence : Evidence) :
    Except InferenceError (List Candidate) := do
  return (← inferAll config evidence).take config.maxCandidates

end RegexInsight
