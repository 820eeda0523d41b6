import RegexInsight.Config
import RegexInsight.Config.Setting

/-! # Configuration Documents

    A configuration read from a document of nested settings with the parts
    `probe`, `inference` and `dialects`.  A missing or blank part stands
    for the standard settings, other parts are ignored, and an option that
    a part does not have is an error.

    The values of the options are checked as they stand in the document,
    whatever kind they are of: a check fails on a value that it cannot
    compare, and options that are not checked may have any value.  The budget
    is read before anything is checked.  After that the options are checked
    one by one, those of the probe first, so that the first fault in that
    order is the one reported.  What the values stand for in a configuration
    is decided when all of them have passed. -/

namespace RegexInsight

/-- Why a document makes no configuration. -/
inductive DocumentError where
  | config (error : ConfigError)
  | duration (error : DurationError)
  /-- The budget is a text that is no number. -/
  | notReal (text : String)
  /-- The budget is an integer beyond all doubles. -/
  | integerTooLarge
  /-- An option or a part has a value of a kind that it cannot have. -/
  | wrongKind (name : String) (found : SettingKind)
  /-- A part is a list with an item that is no pair of a name and a value. -/
  | notAPair (index : Nat)
  /-- A part is a list or a text with an item of another length than two. -/
  | wrongLength (index length : Nat)
  /-- A name in a part is no text. -/
  | badName (found : SettingKind)
  deriving DecidableEq, Repr

/-- The outcome of reading a document. -/
abbrev FromDocument := Except DocumentError

/-- Lifts the check of a setting to documents. -/
def FromDocument.checked {α : Type} : Except ConfigError α → FromDocument α
  | .ok value => .ok value
  | .error e => .error (.config e)

/-- The options of a part with their values. -/
abbrev PartFields := List (String × Setting)

/-- A number of seconds, which may also be written as a text. -/
def PartFields.seconds : Setting → FromDocument Float
  | .text t =>
    match NumberText.readFloat? t.toList with
    | some seconds => .ok seconds
    | none => .error (.notReal t)
  | .int n =>
    let seconds := Float.ofInt n
    if seconds.isInf then .error .integerTooLarge else .ok seconds
  | value =>
    match value.toReal? with
    | some seconds => .ok seconds
    | none => .error (.wrongKind "budget_seconds" value.kind)

/-! ## Section 1: Parts -/

/-- A part of a document. -/
structure DocumentPart where
  fields : PartFields
  /-- The kind of the first name in the part that is no text. -/
  misnamed : Option SettingKind

namespace DocumentPart

/-- The name and the value of two settings in a row; a list or a mapping is
    never a name. -/
def ofPair (index : Nat) : List Setting → FromDocument (Setting × Setting)
  | [name, value] =>
    match name with
    | .list _ | .mapping _ => .error (.badName name.kind)
    | _ => .ok (name, value)
  | items => .error (.wrongLength index items.length)

/-- The name and the value that an item of a list stands for. -/
def ofItem (index : Nat) : Setting → FromDocument (Setting × Setting)
  | .list items => ofPair index items
  | .text t => ofPair index (t.toList.map fun c => .text (String.singleton c))
  | .mapping fields => ofPair index (fields.map fun field => .text field.1)
  | _ => .error (.notAPair index)

/-- The pairs that the items of a list stand for. -/
def ofItems (index : Nat) : List Setting → FromDocument (List (Setting × Setting))
  | [] => .ok []
  | item :: rest => do
    let field ← ofItem index item
    return field :: (← ofItems (index + 1) rest)

/-- The field of a pair whose name is a text. -/
def field? : Setting × Setting → Option (String × Setting)
  | (.text name, value) => some (name, value)
  | _ => none

/-- The part of some pairs; of several values of one name the last one
    counts. -/
def ofPairs (pairs : List (Setting × Setting)) : DocumentPart where
  fields := (pairs.filterMap field?).reverse
  misnamed := (pairs.find? fun pair => (field? pair).isNone).map fun pair => pair.1.kind

/-- The part that is given as a mapping or as a list of pairs. -/
def ofSetting (part : String) : Setting → FromDocument DocumentPart
  | .mapping fields => .ok ⟨fields, none⟩
  | .list items => (ofItems 0 items).map ofPairs
  | .text _ => .error (.wrongLength 0 1)
  | other => .error (.wrongKind part other.kind)

/-- A part of a document. -/
def ofDocument (document : PartFields) (part : String) : FromDocument DocumentPart :=
  match document.lookup part with
  | none => .ok ⟨[], none⟩
  | some value => if value.isBlank then .ok ⟨[], none⟩ else ofSetting part value

/-- The names of options that a part does not have. -/
def unknown (p : DocumentPart) (known : List String) : List String :=
  ((p.fields.map Prod.fst).filter fun name => !known.contains name).eraseDups

/-- Refuses options that a part does not have. -/
def rejectUnknown (p : DocumentPart) (part : String) (known : List String) : FromDocument Unit :=
  match p.misnamed with
  | some kind => .error (.badName kind)
  | none =>
    let unknown := p.unknown known
    if unknown.isEmpty then .ok ()
    else .error (.config (.unknownOptions part (unknown.mergeSort fun a b => a ≤ b)))

/-- The value of an option, or the standard value. -/
def option (p : DocumentPart) (name : String) (standard : Setting) : Setting :=
  (p.fields.lookup name).getD standard

/-- The budget in the probe part, if it is given in seconds. -/
def budget? (p : DocumentPart) : FromDocument (Option Duration) :=
  match p.fields.lookup "budget_seconds" with
  | none => .ok none
  | some value => do
    match Duration.ofSeconds (← PartFields.seconds value) with
    | .ok duration => return some duration
    | .error e => .error (.duration e)

/-- The budget in force: a duration can only be given in seconds. -/
def budget (p : DocumentPart) (given : Option Duration) : FromDocument Duration :=
  match given, p.fields.lookup "budget" with
  | some duration, _ => .ok duration
  | none, some value => .error (.wrongKind "budget" value.kind)
  | none, none => .ok ProbeSettings.standard.budget

end DocumentPart

/-! ## Section 2: Checks -/

namespace FromDocument

/-- The number that an option is compared as. -/
def number (name : String) (value : Setting) : FromDocument SettingNumber :=
  match value.number? with
  | some n => .ok n
  | none => .error (.wrongKind name value.kind)

/-- The number of an option, unless a fault is found in it. -/
def refuseIf (bad : SettingNumber → Bool) (fault : ConfigError) (name : String)
    (value : Setting) : FromDocument SettingNumber := do
  let n ← number name value
  if bad n then .error (.config fault) else return n

/-- The start method that is named by a setting; no other setting than a text
    names one. -/
def startMethod (value : Setting) : FromDocument StartMethod :=
  match value with
  | .text name => .checked (ProbeSettings.checkStartMethod name)
  | other =>
    if other.isShowable then .error (.config (.unknownStartMethod other.shown))
    else .error (.wrongKind "start_method" other.kind)

/-- The count that an option stands for. -/
def count (name : String) (value : Setting) : FromDocument Nat :=
  match value.toCount? with
  | some n => .ok n.toNat
  | none => .error (.wrongKind name value.kind)

/-- The real number that an option stands for. -/
def real (name : String) (value : Setting) : FromDocument Float :=
  match value.toReal? with
  | some x => .ok x
  | none => .error (.wrongKind name value.kind)

end FromDocument

/-! ## Section 3: The probe -/

/-- The options of the probe part. -/
def ProbeConfig.options : List String :=
  ["budget_seconds", "budget", "base_repetitions", "max_input_length", "growth_threshold",
   "min_measurable_seconds", "start_method", "kill_grace_seconds", "force_dynamic"]

/-- The values of the probe options as they are given. -/
structure ProbeValues where
  budget : Duration
  baseRepetitions : Setting
  maxInputLength : Setting
  growthThreshold : Setting
  minMeasurableSeconds : Setting
  startMethod : Setting
  killGraceSeconds : Setting
  forceDynamic : Setting

/-- Settings as the values of options. -/
def ProbeSettings.values (s : ProbeSettings) : ProbeValues where
  budget := s.budget
  baseRepetitions := .int s.baseRepetitions
  maxInputLength := .int s.maxInputLength
  growthThreshold := .real s.growthThreshold
  minMeasurableSeconds := .real s.minMeasurableSeconds
  startMethod := .text s.startMethod
  killGraceSeconds := .real s.killGraceSeconds
  forceDynamic := .bool s.forceDynamic

namespace ProbeValues

/-- The values in a part of known options, with the budget in force. -/
def ofPart (p : DocumentPart) (budget : Duration) : ProbeValues :=
  let base := ProbeSettings.standard.values
  { budget := budget
    baseRepetitions := p.option "base_repetitions" base.baseRepetitions
    maxInputLength := p.option "max_input_length" base.maxInputLength
    growthThreshold := p.option "growth_threshold" base.growthThreshold
    minMeasurableSeconds := p.option "min_measurable_seconds" base.minMeasurableSeconds
    startMethod := p.option "start_method" base.startMethod
    killGraceSeconds := p.option "kill_grace_seconds" base.killGraceSeconds
    forceDynamic := p.option "force_dynamic" base.forceDynamic }

/-- Checks the values, in the order of the options. -/
def check (v : ProbeValues) : FromDocument Unit := do
  let _ ← .checked (ProbeSettings.checkBudget v.budget)
  let base ← .refuseIf (·.isBelow (.whole 1)) .baseTooSmall "base_repetitions" v.baseRepetitions
  let _ ← .refuseIf (·.isBelow base) .inputTooShort "max_input_length" v.maxInputLength
  let _ ← .refuseIf (·.isAtMost (.real 2.0)) .thresholdTooLow "growth_threshold" v.growthThreshold
  let _ ← .startMethod v.startMethod

/-- The configuration that the values stand for. -/
def toConfig (v : ProbeValues) : FromDocument ProbeConfig := do
  return {
    budget := v.budget
    baseRepetitions := ← .count "base_repetitions" v.baseRepetitions
    maxInputLength := ← .count "max_input_length" v.maxInputLength
    growthThreshold := ← .real "growth_threshold" v.growthThreshold
    minMeasurableSeconds := ← .real "min_measurable_seconds" v.minMeasurableSeconds
    startMethod := ← .startMethod v.startMethod
    killGraceSeconds := ← .real "kill_grace_seconds" v.killGraceSeconds
    forceDynamic := v.forceDynamic.isOn }

end ProbeValues

/-! ## Section 4: Inference -/

/-- The options of the inference part. -/
def InferenceConfig.options : List String :=
  ["range_penalty", "max_candidates", "use_templates", "template_confidence_cap", "anchored"]

/-- The values of the inference options as they are given. -/
structure InferenceValues where
  rangePenalty : Setting
  maxCandidates : Setting
  useTemplates : Setting
  templateConfidenceCap : Setting
  anchored : Setting

/-- Settings as the values of options. -/
def InferenceSettings.values (s : InferenceSettings) : InferenceValues where
  rangePenalty := .real s.rangePenalty
  maxCandidates := .int s.maxCandidates
  useTemplates := .bool s.useTemplates
  templateConfidenceCap := .real s.templateConfidenceCap
  anchored := .bool s.anchored

namespace InferenceValues

/-- The values in a part of known options. -/
def ofPart (p : DocumentPart) : InferenceValues :=
  let base := InferenceSettings.standard.values
  { rangePenalty := p.option "range_penalty" base.rangePenalty
    maxCandidates := p.option "max_candidates" base.maxCandidates
    useTemplates := p.option "use_templates" base.useTemplates
    templateConfidenceCap := p.option "template_confidence_cap" base.templateConfidenceCap
    anchored := p.option "anchored" base.anchored }

/-- Whether a number lies between zero and one. -/
def isPenalty (n : SettingNumber) : Bool :=
  (SettingNumber.real 0.0).isAtMost n && n.isAtMost (.real 1.0)

/-- Checks the values, in the order of the options. -/
def check (v : InferenceValues) : FromDocument Unit := do
  let _ ← .refuseIf (!isPenalty ·) .penaltyOutOfRange "range_penalty" v.rangePenalty
  let _ ← .refuseIf (·.isBelow (.whole 1)) .noCandidates "max_candidates" v.maxCandidates

/-- The configuration that the values stand for. -/
def toConfig (v : InferenceValues) : FromDocument InferenceConfig := do
  return {
    rangePenalty := ← .real "range_penalty" v.rangePenalty
    maxCandidates := ← .count "max_candidates" v.maxCandidates
    useTemplates := v.useTemplates.isOn
    templateConfidenceCap := ← .real "template_confidence_cap" v.templateConfidenceCap
    anchored := v.anchored.isOn }

end InferenceValues

/-- The inference configuration of an inference part. -/
def InferenceConfig.ofDocument (fields : PartFields) : FromDocument InferenceConfig := do
  let part : DocumentPart := ⟨fields, none⟩
  part.rejectUnknown "inference" options
  let values := InferenceValues.ofPart part
  values.check
  values.toConfig

/-! ## Section 5: The whole -/

/-- The values of all options of a document that passed their checks. -/
structure ConfigValues where
  probe : ProbeValues
  inference : InferenceValues
  /-- The items that name dialects, if there are any. -/
  dialects : Option (List Setting)

namespace ConfigValues

/-- The items that name dialects; a blank value names none, a text one by each
    of its characters, and a mapping those of its fields. -/
def dialectItems (document : PartFields) : FromDocument (Option (List Setting)) :=
  match document.lookup "dialects" with
  | none => .ok none
  | some value =>
    if value.isBlank then .ok none
    else
      match value with
      | .list items => .ok (some items)
      | .text names => .ok (some (names.toList.map fun c => .text (String.singleton c)))
      | .mapping fields => .ok (some (fields.map fun field => .text field.1))
      | other => .error (.wrongKind "dialects" other.kind)

/-- The checked values of a document.  The budget is read and unknown options
    are refused in both parts before any value is checked. -/
def ofDocument (document : PartFields) : FromDocument ConfigValues := do
  let probePart ← DocumentPart.ofDocument document "probe"
  let given ← probePart.budget?
  let inferencePart ← DocumentPart.ofDocument document "inference"
  probePart.rejectUnknown "probe" ProbeConfig.options
  inferencePart.rejectUnknown "inference" InferenceConfig.options
  let probe := ProbeValues.ofPart probePart (← probePart.budget given)
  probe.check
  let inference := InferenceValues.ofPart inferencePart
  inference.check
  return ⟨probe, inference, ← dialectItems document⟩

/-- The name of a dialect in a list. -/
def dialectName : Setting → FromDocument String
  | .text name => .ok name
  | other => .error (.wrongKind "dialects" other.kind)

/-- The configuration that the values stand for. -/
def toConfig (v : ConfigValues) : FromDocument AnalysisConfig := do
  let probe ← v.probe.toConfig
  let inference ← v.inference.toConfig
  return ⟨probe, inference, ← v.dialects.mapM fun items => items.mapM dialectName⟩

end ConfigValues

/-- The configuration of a document. -/
def AnalysisConfig.ofDocument (document : PartFields) : FromDocument AnalysisConfig := do
  let values ← ConfigValues.ofDocument document
  values.toConfig

end RegexInsight
