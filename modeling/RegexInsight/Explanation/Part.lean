import RegexInsight.Pattern.Label

/-! # Parts

    An explained element of a pattern: its text, what it is, what it does
    in words, and the parts of its body. -/

namespace RegexInsight

/-- What a part is. -/
inductive PartKind where
  | literal | anyChar | anchor | characterClass | unicodeClass | shorthandClass | flags
  | repetition | capturingGroup | namedGroup | atomicGroup | nonCapturingGroup
  | alternation | conditional | branch | lookahead | lookbehind | backreference | recursion
  deriving DecidableEq, Repr

namespace PartKind

/-- The name of a kind in reports. -/
def name : PartKind → String
  | literal => "literal"
  | anyChar => "any_char"
  | anchor => "anchor"
  | characterClass => "character_class"
  | unicodeClass => "unicode_class"
  | shorthandClass => "shorthand_class"
  | flags => "flags"
  | repetition => "repetition"
  | capturingGroup => "capturing_group"
  | namedGroup => "named_group"
  | atomicGroup => "atomic_group"
  | nonCapturingGroup => "non_capturing_group"
  | alternation => "alternation"
  | conditional => "conditional"
  | branch => "branch"
  | lookahead => "lookahead"
  | lookbehind => "lookbehind"
  | backreference => "backreference"
  | recursion => "recursion"

end PartKind

/-- An explained element. -/
structure Part where
  kind : PartKind
  /-- The text of the element, with that of a quantifier on it. -/
  token : Text
  description : String
  /-- The text of the quantifier. -/
  quantifier : Option Text
  /-- The number of a capturing group, or of the group referred to. -/
  group : Option Nat
  /-- The parts of the body. -/
  children : List Part
  deriving Repr

namespace Part

/-- A part without body and quantifier. -/
def leaf (kind : PartKind) (token : Text) (description : String) : Part :=
  ⟨kind, token, description, none, none, []⟩

/-- A part with a body. -/
def around (kind : PartKind) (token : Text) (description : String) (body : List Part) :
    Part :=
  ⟨kind, token, description, none, none, body⟩

mutual

/-- A part and everything in it in pattern order, with depths. -/
def walkFrom (depth : Nat) : Part → List (Nat × Part)
  | ⟨kind, token, description, quantifier, group, children⟩ =>
    (depth, ⟨kind, token, description, quantifier, group, children⟩) ::
      walkEach (depth + 1) children

/-- Some parts and everything in them in pattern order, with depths. -/
def walkEach (depth : Nat) : List Part → List (Nat × Part)
  | [] => []
  | part :: rest => walkFrom depth part ++ walkEach depth rest

end

end Part

end RegexInsight
