import RegexInsight.Pattern
import RegexInsight.Repetition

/-! # Feature Profile

    A flat record of the constructs that a pattern uses.  Engine choice,
    portability and risk assessment read this record only.  A feature flag
    is a construct that a dialect may lack; the nesting depth and the
    overlap of alternations are risk signals without a flag. -/

namespace RegexInsight

/-! ## Section 1: Feature flags -/

/-- Constructs that a dialect may or may not support. -/
inductive FeatureFlag where
  | lookbehindVariableLength | backreferenceInLookaround | possessiveQuantifier
  | atomicGroup | conditional | unicodeProperty | namedGroupSpelling | lookahead
  | lookbehind | backreference | recursion | posixClass | inlineFlags
  deriving DecidableEq, Repr

namespace FeatureFlag

/-- All flags in the order in which they are checked and reported. -/
def all : List FeatureFlag :=
  [lookbehindVariableLength, backreferenceInLookaround, possessiveQuantifier,
   atomicGroup, conditional, unicodeProperty, namedGroupSpelling, lookahead,
   lookbehind, backreference, recursion, posixClass, inlineFlags]

/-- The name of a flag in reports. -/
def name : FeatureFlag → String
  | lookbehindVariableLength => "lookbehind_variable_length"
  | backreferenceInLookaround => "backreference_in_lookaround"
  | possessiveQuantifier => "possessive_quantifier"
  | atomicGroup => "atomic_group"
  | conditional => "conditional"
  | unicodeProperty => "unicode_property"
  | namedGroupSpelling => "named_group_syntax"
  | lookahead => "lookahead"
  | lookbehind => "lookbehind"
  | backreference => "backreference"
  | recursion => "recursion"
  | posixClass => "posix_class"
  | inlineFlags => "inline_flags"

/-- The flag of a name. -/
def ofName? (name : String) : Option FeatureFlag :=
  all.find? fun flag => flag.name == name

/-- The construct in words. -/
def description : FeatureFlag → String
  | lookbehindVariableLength => "variable-length lookbehind assertion"
  | backreferenceInLookaround => "backreference inside a lookaround"
  | possessiveQuantifier => "possessive quantifier (a++, a*+)"
  | atomicGroup => "atomic group (?>...)"
  | conditional => "conditional group (?(1)then|else)"
  | unicodeProperty => "Unicode property escape (\\p\x7b...\x7d)"
  | namedGroupSpelling => "named group syntax"
  | lookahead => "lookahead assertion (?=...) / (?!...)"
  | lookbehind => "lookbehind assertion (?<=...) / (?<!...)"
  | backreference => "backreference (\\1, \\k<name>)"
  | recursion => "recursion or subroutine call ((?R), \\g<name>)"
  | posixClass => "POSIX bracket class ([:alpha:])"
  | inlineFlags => "inline flag group ((?i), (?i:...))"

end FeatureFlag

/-! ## Section 2: Profiles -/

/-- The constructs that a pattern uses. -/
structure FeatureProfile where
  hasLookahead : Bool
  hasLookbehind : Bool
  lookbehindIsVariableLength : Bool
  hasBackreference : Bool
  hasBackreferenceInLookaround : Bool
  hasNamedGroups : Bool
  /-- The spellings of named groups in use, in the order of
      `NameSpelling.all`. -/
  spellings : List NameSpelling
  hasConditional : Bool
  hasAtomicGroup : Bool
  hasPossessiveQuantifier : Bool
  hasUnicodeProperty : Bool
  lookaheadHasNestedQuantifier : Bool
  nestedQuantifierDepth : Nat
  hasOverlappingAlternation : Bool
  hasRecursion : Bool
  hasPosixClass : Bool
  hasInlineFlags : Bool
  deriving DecidableEq, Repr

namespace FeatureProfile

/-- Whether the profile sets a flag. -/
def sets (p : FeatureProfile) : FeatureFlag → Bool
  | .lookbehindVariableLength => p.lookbehindIsVariableLength
  | .backreferenceInLookaround => p.hasBackreferenceInLookaround
  | .possessiveQuantifier => p.hasPossessiveQuantifier
  | .atomicGroup => p.hasAtomicGroup
  | .conditional => p.hasConditional
  | .unicodeProperty => p.hasUnicodeProperty
  | .namedGroupSpelling => p.hasNamedGroups
  | .lookahead => p.hasLookahead
  | .lookbehind => p.hasLookbehind
  | .backreference => p.hasBackreference
  | .recursion => p.hasRecursion
  | .posixClass => p.hasPosixClass
  | .inlineFlags => p.hasInlineFlags

/-- The flags that the profile sets, in check order. -/
def activeFlags (p : FeatureProfile) : List FeatureFlag :=
  FeatureFlag.all.filter p.sets

/-- No flag is set. -/
def isEmpty (p : FeatureProfile) : Bool :=
  p.activeFlags.isEmpty

end FeatureProfile

/-! ## Section 3: Derivation -/

/-- A repeating ancestor stands between the visited node and a lookahead
    around it. -/
def nestedUnderLookahead (ancestors : List Node) : Bool :=
  match ancestors.dropWhile fun a => !a.isRepeating with
  | [] => false
  | _ :: above => above.any fun a => a.label.isLookahead

/-- A lookbehind whose body matches texts of different lengths. -/
def isVariableLookbehind (n : Node) : Bool :=
  n.label.isLookbehind && n.children.any fun body => !body.reach.isFixedWidth

/-- The spelling of a named group. -/
def spelling? (n : Node) : Option NameSpelling :=
  match n.label with
  | .group (.named _ _ spelling) => some spelling
  | _ => none

/-- Inline flags, for the rest of a group or for a group of their own. -/
def hasFlagText (n : Node) : Bool :=
  match n.label with
  | .flags _ => true
  | .group (.nonCapturing (some _)) => true
  | _ => false

def isUnicodeProperty (n : Node) : Bool :=
  match n.label with
  | .charClass _ traits _ => traits.unicodeProperty
  | _ => false

def isPosixClass (n : Node) : Bool :=
  match n.label with
  | .charClass _ traits _ => traits.posix
  | _ => false

/-- The profile of a tree. -/
def FeatureProfile.ofNode (root : Node) : FeatureProfile :=
  let visits := root.visits
  let nodes := visits.map Visit.node
  let scan := scanRepetition root
  let spellings := nodes.filterMap spelling?
  { hasLookahead := nodes.any fun n => n.label.isLookahead
    hasLookbehind := nodes.any fun n => n.label.isLookbehind
    lookbehindIsVariableLength := nodes.any isVariableLookbehind
    hasBackreference := nodes.any fun n => n.kind = .backreference
    hasBackreferenceInLookaround := visits.any fun v =>
      v.node.kind = .backreference && v.ancestors.any fun a => a.kind = .lookaround
    hasNamedGroups := !spellings.isEmpty
    spellings := NameSpelling.all.filter spellings.contains
    hasConditional := nodes.any fun n => n.kind = .conditional
    hasAtomicGroup := nodes.any fun n => n.label.isAtomicGroup
    hasPossessiveQuantifier := nodes.any fun n => n.label.isPossessive
    hasUnicodeProperty := nodes.any isUnicodeProperty
    lookaheadHasNestedQuantifier := visits.any fun v =>
      v.node.isRepeating && nestedUnderLookahead v.ancestors
    nestedQuantifierDepth := scan.depth
    hasOverlappingAlternation := scan.overlapping
    hasRecursion := nodes.any fun n => n.kind = .recursion
    hasPosixClass := nodes.any isPosixClass
    hasInlineFlags := nodes.any hasFlagText }

/-- The profile of a pattern. -/
def Pattern.profile (p : Pattern) : FeatureProfile :=
  .ofNode p.root

end RegexInsight
