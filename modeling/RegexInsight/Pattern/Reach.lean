import RegexInsight.Pattern.Label

/-! # Reach

    What a node can consume: the characters it may take, the characters a
    non-empty match may start with, and bounds on the length of a match.
    The reach of a node is a function of its label and the reaches of its
    children. -/

namespace RegexInsight

/-- Bounds on what a node consumes; no `maxWidth` means unbounded. -/
structure Reach where
  chars : CharSet
  first : CharSet
  minWidth : Nat
  maxWidth : Option Nat
  deriving DecidableEq, Repr

namespace Reach

/-! ## Section 1: Leaves -/

/-- Consumes nothing. -/
def nothing : Reach := ⟨.empty, .empty, 0, some 0⟩

/-- Consumes one character of a set. -/
def one (chars : CharSet) : Reach := ⟨chars, chars, 1, some 1⟩

/-- May consume any text. -/
def anything : Reach := ⟨.everything, .everything, 0, none⟩

/-- All matches have one length. -/
def isFixedWidth (r : Reach) : Bool :=
  r.maxWidth == some r.minWidth

/-! ## Section 2: Widths -/

/-- The sum of upper bounds, unbounded as soon as one is. -/
def sumWidths : List (Option Nat) → Option Nat
  | [] => some 0
  | none :: _ => none
  | some w :: rest => (sumWidths rest).map (w + ·)

/-- The largest of upper bounds, unbounded as soon as one is. -/
def maxWidths : List (Option Nat) → Option Nat
  | [] => some 0
  | none :: _ => none
  | some w :: rest => (maxWidths rest).map (max w)

/-- The least of some widths. -/
def leastWidth : List Nat → Nat
  | [] => 0
  | w :: rest => rest.foldl min w

/-! ## Section 3: Inner nodes -/

/-- The first characters of a sequence: those of its items up to the first
    one that must consume something. -/
def firstOfSequence : List Reach → CharSet
  | [] => .empty
  | r :: rest => if r.minWidth > 0 then r.first else r.first ∪ firstOfSequence rest

/-- One item after the other. -/
def sequence (items : List Reach) : Reach where
  chars := .unionAll (items.map chars)
  first := firstOfSequence items
  minWidth := (items.map minWidth).foldr Nat.add 0
  maxWidth := sumWidths (items.map maxWidth)

/-- One of several branches. -/
def choice (branches : List Reach) : Reach where
  chars := .unionAll (branches.map chars)
  first := .unionAll (branches.map first)
  minWidth := leastWidth (branches.map minWidth)
  maxWidth := maxWidths (branches.map maxWidth)

/-- One branch, or nothing when only one is written. -/
def conditional (branches : List Reach) : Reach :=
  match branches with
  | [only] => choice [only, nothing]
  | _ => choice branches

/-- A body repeated within bounds. -/
def repeated (bounds : Bounds) (body : Reach) : Reach :=
  if bounds.max = some 0 then nothing
  else
    { chars := body.chars
      first := body.first
      minWidth := body.minWidth * bounds.min
      maxWidth :=
        if body.maxWidth = some 0 then some 0
        else match bounds.max, body.maxWidth with
          | some high, some width => some (width * high)
          | _, _ => none }

/-- The reach of the only child. -/
def ofOnly : List Reach → Reach
  | [body] => body
  | _ => nothing

end Reach

/-- The reach of a node from its label and the reaches of its children. -/
def Label.reach (label : Label) (children : List Reach) : Reach :=
  match label with
  | .literal _ accepts => .one accepts
  | .charClass _ _ accepts => .one accepts
  | .any accepts => .one accepts
  | .empty | .anchor _ | .flags _ | .lookaround _ _ => .nothing
  | .backreference _ | .recursion _ => .anything
  | .group _ => .ofOnly children
  | .quantifier bounds _ => .repeated bounds (.ofOnly children)
  | .concat => .sequence children
  | .alternation => .choice children
  | .conditional _ => .conditional children

end RegexInsight
