import RegexInsight.CharSet

/-! # Node Labels

    What a node of a pattern is, apart from where it stands and what it
    contains.  A label carries exactly the data that its kind of node has:
    a literal its character and the characters it accepts, a group how it
    captures, a quantifier its bounds. -/

namespace RegexInsight

/-- Pattern text. -/
abbrev Text := List Char

/-! ## Section 1: Parts of a label -/

/-- The spellings of a named group: `(?P<name>…)`, `(?<name>…)` and
    `(?'name'…)`. -/
inductive NameSpelling where
  | pAngle | angle | quote
  deriving DecidableEq, Repr

namespace NameSpelling

/-- All spellings, in the order of their written forms. -/
def all : List NameSpelling := [quote, angle, pAngle]

/-- The written form of a spelling. -/
def form : NameSpelling → String
  | pAngle => "(?P<name>...)"
  | angle => "(?<name>...)"
  | quote => "(?'name'...)"

end NameSpelling

/-- How a group captures. -/
inductive GroupKind where
  /-- `(…)`, with its number. -/
  | capturing (index : Nat)
  /-- A group with a number and a name. -/
  | named (index : Nat) (name : Text) (spelling : NameSpelling)
  /-- `(?:…)`, or `(?flags:…)` with the text of its flags. -/
  | nonCapturing (flags : Option Text)
  /-- `(?>…)`. -/
  | atomic
  deriving DecidableEq, Repr

namespace GroupKind

/-- The number of a capturing group. -/
def index? : GroupKind → Option Nat
  | capturing index => some index
  | named index _ _ => some index
  | nonCapturing _ => none
  | atomic => none

def isAtomic : GroupKind → Bool
  | atomic => true
  | _ => false

end GroupKind

/-- Whether a quantifier prefers more, prefers fewer, or never gives back. -/
inductive QuantifierMode where
  | greedy | lazy | possessive
  deriving DecidableEq, Repr

/-- The repetition counts that a quantifier allows; no `max` means any
    number from `min` on. -/
structure Bounds where
  min : Nat
  max : Option Nat
  deriving DecidableEq, Repr

namespace Bounds

/-- More than one repetition is allowed. -/
def repeats (b : Bounds) : Bool :=
  match b.max with
  | none => true
  | some high => 1 < high

end Bounds

/-- The side of the current position that a lookaround inspects. -/
inductive LookDirection where
  | ahead | behind
  deriving DecidableEq, Repr

/-- Positions that an anchor asserts. -/
inductive Anchor where
  | lineStart | lineEnd | textStart | textEnd | absoluteEnd
  | wordBoundary | notWordBoundary | previousMatchEnd
  deriving DecidableEq, Repr

namespace Anchor

/-- The written form of an anchor. -/
def text : Anchor → Text
  | lineStart => ['^']
  | lineEnd => ['$']
  | textStart => ['\\', 'A']
  | textEnd => ['\\', 'Z']
  | absoluteEnd => ['\\', 'z']
  | wordBoundary => ['\\', 'b']
  | notWordBoundary => ['\\', 'B']
  | previousMatchEnd => ['\\', 'G']

/-- The anchor that a letter names after a backslash. -/
def ofEscape? : Char → Option Anchor
  | 'A' => some textStart
  | 'Z' => some textEnd
  | 'z' => some absoluteEnd
  | 'b' => some wordBoundary
  | 'B' => some notWordBoundary
  | 'G' => some previousMatchEnd
  | _ => none

end Anchor

/-- What the writing of a character class shows. -/
structure ClassTraits where
  negated : Bool
  unicodeProperty : Bool
  posix : Bool
  deriving DecidableEq, Repr

namespace ClassTraits

/-- A class with none of the traits. -/
def plain : ClassTraits := ⟨false, false, false⟩

end ClassTraits

/-! ## Section 2: Labels -/

/-- What a node is. -/
inductive Label where
  /-- Nothing written, as in an empty branch. -/
  | empty
  /-- One character; `accepts` also has its case partner when case is
      ignored. -/
  | literal (char : CodePoint) (accepts : CharSet)
  /-- A shorthand, a property escape or a bracket class, with its text. -/
  | charClass (source : Text) (traits : ClassTraits) (accepts : CharSet)
  /-- The dot. -/
  | any (accepts : CharSet)
  | anchor (kind : Anchor)
  /-- Inline flags that hold up to the end of the enclosing group. -/
  | flags (text : Text)
  | backreference (target : Text)
  | recursion (target : Text)
  | group (kind : GroupKind)
  | lookaround (direction : LookDirection) (negated : Bool)
  | quantifier (bounds : Bounds) (mode : QuantifierMode)
  | concat
  | alternation
  | conditional (condition : Text)
  deriving DecidableEq, Repr

/-- The kinds of nodes. -/
inductive NodeKind where
  | empty | literal | charClass | any | group | quantifier | concat | alternation
  | anchor | lookaround | backreference | conditional | recursion | flags
  deriving DecidableEq, Repr

namespace NodeKind

/-- All kinds. -/
def all : List NodeKind :=
  [empty, literal, charClass, any, group, quantifier, concat, alternation,
   anchor, lookaround, backreference, conditional, recursion, flags]

/-- The name of a kind in reports. -/
def name : NodeKind → String
  | empty => "empty"
  | literal => "literal"
  | charClass => "char_class"
  | any => "any"
  | group => "group"
  | quantifier => "quantifier"
  | concat => "concat"
  | alternation => "alternation"
  | anchor => "anchor"
  | lookaround => "lookaround"
  | backreference => "backreference"
  | conditional => "conditional"
  | recursion => "recursion"
  | flags => "flags"

/-- The kind of a name. -/
def ofName? (name : String) : Option NodeKind :=
  all.find? fun kind => kind.name == name

end NodeKind

namespace Label

/-- The kind of a label. -/
def kind : Label → NodeKind
  | empty => .empty
  | literal .. => .literal
  | charClass .. => .charClass
  | any .. => .any
  | anchor .. => .anchor
  | flags .. => .flags
  | backreference .. => .backreference
  | recursion .. => .recursion
  | group .. => .group
  | lookaround .. => .lookaround
  | quantifier .. => .quantifier
  | concat => .concat
  | alternation => .alternation
  | conditional .. => .conditional

/-- A quantifier that can match its body more than once. -/
def isRepeating : Label → Bool
  | quantifier bounds _ => bounds.repeats
  | _ => false

/-- A quantifier that never gives back what it matched. -/
def isPossessive : Label → Bool
  | quantifier _ mode => mode == .possessive
  | _ => false

def isAtomicGroup : Label → Bool
  | group kind => kind.isAtomic
  | _ => false

def isLookahead : Label → Bool
  | lookaround direction _ => direction == .ahead
  | _ => false

def isLookbehind : Label → Bool
  | lookaround direction _ => direction == .behind
  | _ => false

/-- Flags and anchors cannot be repeated. -/
def isRepeatable : Label → Bool
  | flags _ => false
  | anchor _ => false
  | _ => true

end Label

end RegexInsight
