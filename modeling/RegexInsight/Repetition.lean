import RegexInsight.Pattern.Node

/-! # Repetition

    Where a repeated body can match the same text in several ways.  Two
    situations are looked for: a repeating quantifier whose characters can
    also come right after it inside the nearest repeating quantifier
    around it, and an alternation inside a repeating quantifier whose
    branches overlap.

    Possessive quantifiers and atomic groups never give back what they
    matched, so nothing inside them multiplies with what is outside. -/

namespace RegexInsight

/-- What makes a site ambiguous. -/
inductive RiskKind where
  | nestedQuantifier | overlappingAlternation
  deriving DecidableEq, Repr

namespace RiskKind

/-- The name of a kind in reports. -/
def name : RiskKind → String
  | nestedQuantifier => "nested_quantifier"
  | overlappingAlternation => "overlapping_alternation"

end RiskKind

/-- An ambiguous place. -/
structure RiskSite where
  kind : RiskKind
  /-- The repeating quantifier whose body is ambiguous. -/
  quantifier : Visit
  /-- The inner quantifier or the alternation that causes it. -/
  cause : Visit
  /-- The nesting depth of the site. -/
  depth : Nat

/-! ## Section 1: What follows a node -/

/-- The first characters of siblings up to the first one that must consume
    something, and whether there is such a one. -/
def firstOfSiblings : List Node → CharSet × Bool
  | [] => (.empty, false)
  | sibling :: rest =>
    if sibling.minWidth > 0 then (sibling.first, true)
    else
      let (later, blocked) := firstOfSiblings rest
      (sibling.first ∪ later, blocked)

/-- The characters that can come right after a node inside the body of the
    nearest repeating quantifier above it.  Siblings after the node are
    collected on the way up; if all of them can be empty, the next
    iteration of the body follows. -/
def followInBody : List Step → CharSet
  | [] => .empty
  | step :: up =>
    if step.parent.isRepeating then step.parent.first
    else if step.parent.kind = .concat then
      let (siblings, blocked) := firstOfSiblings step.after
      if blocked then siblings else siblings ∪ followInBody up
    else followInBody up

/-! ## Section 2: Overlapping branches -/

mutual

/-- The text of a node made only of literals that accept one character. -/
def literalText? : Node → Option (List CodePoint)
  | .node label _ children =>
    match label with
    | .literal c accepts => if accepts.isSingle then some [c] else none
    | .concat => literalTexts? children
    | .group kind => if kind.isAtomic then none else literalTexts? children
    | _ => none

/-- The joined texts of nodes that all are made of such literals. -/
def literalTexts? : List Node → Option (List CodePoint)
  | [] => some []
  | n :: rest =>
    match literalText? n, literalTexts? rest with
    | some text, some texts => some (text ++ texts)
    | _, _ => none

end

/-- One text is the beginning of the other. -/
def comparable (a b : List CodePoint) : Bool :=
  a.isPrefixOf b || b.isPrefixOf a

/-- Two branches can begin alike: by their texts if both are literal, else
    by their first characters. -/
def branchPairOverlaps (left right : Node) : Bool :=
  match literalText? left, literalText? right with
  | some a, some b => comparable a b
  | _, _ => left.first.intersects right.first

/-- Some branch may be empty, or two branches can begin alike. -/
def branchesOverlap : List Node → Bool
  | [] => false
  | left :: rest =>
    left.minWidth == 0 || rest.any (branchPairOverlaps left) || branchesOverlap rest

/-! ## Section 3: The scan -/

/-- The nearest repeating quantifier around a place. -/
structure Enclosing where
  quantifier : Visit
  depth : Nat
  /-- It, or an atomic group since, never gives back what it matched. -/
  barrier : Bool

/-- The outcome of a scan. -/
structure RepetitionScan where
  /-- The greatest depth of a repeating quantifier; zero without one. -/
  depth : Nat
  /-- Some alternation under repetition overlaps. -/
  overlapping : Bool
  /-- The ambiguous places in pattern order. -/
  sites : List RiskSite

namespace RepetitionScan

/-- Nothing was found. -/
def none : RepetitionScan := ⟨0, false, []⟩

/-- What was found in two places, one after the other. -/
def append (a b : RepetitionScan) : RepetitionScan :=
  ⟨max a.depth b.depth, a.overlapping || b.overlapping, a.sites ++ b.sites⟩

end RepetitionScan

/-- The enclosing quantifier for which a repeating quantifier counts as
    nested: neither of the two is possessive, no atomic group stands
    between, and a character of the inner one can follow it. -/
def nestedIn? (enclosing : Option Enclosing) (v : Visit) : Option Enclosing :=
  match enclosing with
  | some e =>
    if !e.barrier && !v.node.label.isPossessive
        && v.node.chars.intersects (followInBody v.path) then
      some e
    else .none
  | .none => .none

/-- What is found at a node itself, and the enclosing quantifier for its
    children. -/
def scanHere (enclosing : Option Enclosing) (v : Visit) : RepetitionScan × Option Enclosing :=
  if v.node.isRepeating then
    match nestedIn? enclosing v with
    | some e =>
      (⟨e.depth + 1, false, [⟨.nestedQuantifier, e.quantifier, v, e.depth + 1⟩]⟩,
        some ⟨v, e.depth + 1, v.node.label.isPossessive⟩)
    | none => (⟨1, false, []⟩, some ⟨v, 1, v.node.label.isPossessive⟩)
  else if v.node.label.isAtomicGroup then
    (.none, enclosing.map fun e => { e with barrier := true })
  else if v.node.kind = .alternation then
    match enclosing with
    | some e =>
      if !e.barrier && branchesOverlap v.node.children then
        (⟨0, true, [⟨.overlappingAlternation, e.quantifier, v, e.depth⟩]⟩, some e)
      else (.none, some e)
    | none => (.none, none)
  else (.none, enclosing)

mutual

/-- Scans a node and everything below it. -/
def scanFrom (path : List Step) (enclosing : Option Enclosing) : Node → RepetitionScan
  | .node label mark children =>
    let (here, inner) := scanHere enclosing ⟨.node label mark children, path⟩
    here.append (scanChildren (.node label mark children) path inner [] children)

/-- Scans the children of `parent` from the given ones on. -/
def scanChildren (parent : Node) (path : List Step) (enclosing : Option Enclosing)
    (before : List Node) : List Node → RepetitionScan
  | [] => .none
  | child :: after =>
    (scanFrom (⟨parent, before, after⟩ :: path) enclosing child).append
      (scanChildren parent path enclosing (child :: before) after)

end

/-- Scans a whole tree. -/
def scanRepetition (root : Node) : RepetitionScan :=
  scanFrom [] none root

end RegexInsight
