import RegexInsight.Profile

/-! # Engine Choice

    A pattern goes to a linear-time engine unless its profile shows a
    construct that only a backtracking engine can execute.  The choice
    reads the profile; a second look at the tree itself makes sure that a
    linear-time choice does not contradict it. -/

namespace RegexInsight

/-- The two families of engines. -/
inductive EngineVariant where
  | linearTime | backtracking
  deriving DecidableEq, Repr

namespace EngineVariant

/-- The name of a family in reports. -/
def name : EngineVariant → String
  | linearTime => "linear_time"
  | backtracking => "backtracking"

end EngineVariant

/-! ## Section 1: Signals -/

/-- What a profile can show. -/
inductive Signal where
  | lookahead | lookbehind | variableLookbehind | backreference
  | backreferenceInLookaround | namedGroups | spellings | conditional | atomicGroup
  | possessiveQuantifier | unicodeProperty | nestedQuantifierInLookahead
  | nestedQuantifiers | overlappingAlternation | recursion | posixClass | inlineFlags
  /-- No feature at all. -/
  | plain
  deriving DecidableEq, Repr

namespace Signal

/-- The signals of features, in the order of the profile's report. -/
def all : List Signal :=
  [lookahead, lookbehind, variableLookbehind, backreference, backreferenceInLookaround,
   namedGroups, spellings, conditional, atomicGroup, possessiveQuantifier,
   unicodeProperty, nestedQuantifierInLookahead, nestedQuantifiers,
   overlappingAlternation, recursion, posixClass, inlineFlags]

/-- The name of a signal in reports. -/
def name : Signal → String
  | lookahead => "has_lookahead"
  | lookbehind => "has_lookbehind"
  | variableLookbehind => "lookbehind_is_variable_length"
  | backreference => "has_backreference"
  | backreferenceInLookaround => "has_backreference_in_lookaround"
  | namedGroups => "has_named_groups"
  | spellings => "named_group_syntaxes"
  | conditional => "has_conditional"
  | atomicGroup => "has_atomic_group"
  | possessiveQuantifier => "has_possessive_quantifier"
  | unicodeProperty => "has_unicode_property"
  | nestedQuantifierInLookahead => "lookahead_has_nested_quantifier"
  | nestedQuantifiers => "nested_quantifier_depth"
  | overlappingAlternation => "has_overlapping_alternation"
  | recursion => "has_recursion"
  | posixClass => "has_posix_class"
  | inlineFlags => "has_inline_flags"
  | plain => "is_empty"

/-- The signal of a name. -/
def ofName? (name : String) : Option Signal :=
  (plain :: all).find? fun signal => signal.name == name

end Signal

/-- Whether a profile shows a signal: a count when it is not zero, a
    collection when it is not empty. -/
def FeatureProfile.shows (p : FeatureProfile) : Signal → Bool
  | .lookahead => p.hasLookahead
  | .lookbehind => p.hasLookbehind
  | .variableLookbehind => p.lookbehindIsVariableLength
  | .backreference => p.hasBackreference
  | .backreferenceInLookaround => p.hasBackreferenceInLookaround
  | .namedGroups => p.hasNamedGroups
  | .spellings => !p.spellings.isEmpty
  | .conditional => p.hasConditional
  | .atomicGroup => p.hasAtomicGroup
  | .possessiveQuantifier => p.hasPossessiveQuantifier
  | .unicodeProperty => p.hasUnicodeProperty
  | .nestedQuantifierInLookahead => p.lookaheadHasNestedQuantifier
  | .nestedQuantifiers => p.nestedQuantifierDepth != 0
  | .overlappingAlternation => p.hasOverlappingAlternation
  | .recursion => p.hasRecursion
  | .posixClass => p.hasPosixClass
  | .inlineFlags => p.hasInlineFlags
  | .plain => p.isEmpty

/-! ## Section 2: Selection -/

/-- A signal that asks for a backtracking engine, with the reason. -/
structure Trigger where
  signal : Signal
  reason : String
  deriving DecidableEq, Repr

/-- A rule that chooses an engine family by its triggers. -/
structure EngineSelector where
  triggers : List Trigger

namespace EngineSelector

/-- The constructs that no linear-time engine executes. -/
def standard : EngineSelector := ⟨[
  ⟨.backreference, "backreferences require a backtracking engine"⟩,
  ⟨.conditional, "conditional groups require a backtracking engine"⟩,
  ⟨.atomicGroup, "atomic groups are a backtracking-control construct"⟩,
  ⟨.possessiveQuantifier, "possessive quantifiers are a backtracking-control construct"⟩,
  ⟨.variableLookbehind,
    "variable-length lookbehind is not supported by linear-time engines"⟩,
  ⟨.nestedQuantifierInLookahead, "lookahead contains nested quantifiers"⟩,
  ⟨.recursion, "recursion and subroutine calls require a backtracking engine"⟩]⟩

/-- The family for a profile. -/
def select (s : EngineSelector) (p : FeatureProfile) : EngineVariant :=
  if s.triggers.any fun t => p.shows t.signal then .backtracking else .linearTime

/-- The reasons for a backtracking engine; none for a linear-time one. -/
def reasons (s : EngineSelector) (p : FeatureProfile) : List String :=
  (s.triggers.filter fun t => p.shows t.signal).map Trigger.reason

end EngineSelector

/-- The family for a profile by the standard rule. -/
def selectEngine (p : FeatureProfile) : EngineVariant :=
  EngineSelector.standard.select p

/-! ## Section 3: Consistency -/

/-- A construct that no linear-time engine can run, named from the node
    itself. -/
def backtrackingConstruct? (n : Node) : Option String :=
  match n.label with
  | .backreference _ | .conditional _ | .recursion _ => some n.kind.name
  | .group .atomic => some "atomic group"
  | .quantifier _ .possessive => some "possessive quantifier"
  | .lookaround .behind _ =>
    if isVariableLookbehind n then some "variable-length lookbehind" else none
  | _ => none

/-- The backtracking-only constructs of a tree with their places, in the
    order of completion. -/
def backtrackingConstructs (root : Node) : List String :=
  root.completed.filterMap fun n =>
    (backtrackingConstruct? n).map fun construct => construct ++ " at " ++ toString n.start

/-- A choice that contradicts the tree. -/
structure InvariantViolation where
  pattern : Text
  constructs : List String
  deriving DecidableEq, Repr

namespace InvariantViolation

def message (_ : InvariantViolation) : String :=
  "Linear-time engine selected for a pattern with backtracking-only constructs"

end InvariantViolation

/-- Refuses a linear-time choice for a pattern with backtracking-only
    constructs. -/
def Pattern.ensureConsistent (p : Pattern) (variant : EngineVariant) :
    Except InvariantViolation Unit :=
  match variant with
  | .backtracking => .ok ()
  | .linearTime =>
    let constructs := backtrackingConstructs p.root
    if constructs.isEmpty then .ok () else .error ⟨p.text, constructs⟩

/-- The engine family of a pattern, checked against its tree. -/
def Pattern.select (p : Pattern) : Except InvariantViolation EngineVariant := do
  let variant := selectEngine p.profile
  p.ensureConsistent variant
  return variant

end RegexInsight
