import RegexInsight.Backtracking.Attack

/-! # Extent

    Attack inputs are made by repeating texts, and bounds of repetition may
    be as large as one likes.  A text is made only if the count and the
    length fit into a signed word of 64 bits and the length into memory;
    here lengths are computed without making the texts.

    Preparing an attack takes the witnesses of all nodes of a pattern, so
    a single bound beyond the limits prevents it. -/

namespace RegexInsight

/-- Why a text cannot be made. -/
inductive OversizeError where
  /-- The count of repetitions does not fit into a word. -/
  | countBeyondWord
  /-- The length does not fit into a word. -/
  | lengthBeyondWord
  /-- The text does not fit into memory. -/
  | beyondMemory
  deriving DecidableEq, Repr

namespace Extent

/-- The largest signed word of 64 bits. -/
def maxWord : Nat := 9223372036854775807

/-- The length of the longest text that fits into memory. -/
def maxLength : Nat := 34359738368

/-- The length of a text of some length repeated some times. -/
def repeated (length count : Nat) : Except OversizeError Nat :=
  if maxWord < count then .error .countBeyondWord
  else if maxWord < length * count then .error .lengthBeyondWord
  else if maxLength < length * count then .error .beyondMemory
  else .ok (length * count)

/-! ## Section 1: Witnesses -/

/-- The sum of some lengths. -/
def sum (lengths : List Nat) : Nat :=
  lengths.foldl (· + ·) 0

/-- The least of some lengths; zero if there are none. -/
def least : List Nat → Nat
  | [] => 0
  | length :: rest => rest.foldl min length

/-- The length of the witness of a node from those of its children. -/
def ofLabel (atLeastOnce : Bool) (label : Label) (lengths : List Nat) :
    Except OversizeError Nat :=
  match label with
  | .literal _ _ => .ok 1
  | .charClass _ _ accepts => .ok (accepts.sample []).toList.length
  | .any accepts => .ok (accepts.sample []).toList.length
  | .group _ => .ok (sum lengths)
  | .concat => .ok (sum lengths)
  | .quantifier bounds _ =>
    if bounds.max = some 0 then .ok 0
    else repeated (sum lengths) (if atLeastOnce then max 1 bounds.min else bounds.min)
  | .alternation =>
    .ok (least (if atLeastOnce then lengths.filter fun length => length != 0 else lengths))
  | .conditional _ => .ok (lengths.headD 0)
  | .empty | .anchor _ | .flags _ | .lookaround _ _ | .backreference _ | .recursion _ => .ok 0

mutual

/-- The length of the witness of a node; all nodes below it have witnesses
    within the limits. -/
def ofNode (atLeastOnce : Bool) : Node → Except OversizeError Nat
  | .node label _ children => do ofLabel atLeastOnce label (← ofNodes atLeastOnce children)

/-- The lengths of the witnesses of some nodes. -/
def ofNodes (atLeastOnce : Bool) : List Node → Except OversizeError (List Nat)
  | [] => .ok []
  | n :: rest => do
    let length ← ofNode atLeastOnce n
    return length :: (← ofNodes atLeastOnce rest)

end

end Extent

/-- The witnesses of all nodes, if all of them are within the limits. -/
def Pattern.witnesses (p : Pattern) (atLeastOnce : Bool) :
    Except OversizeError (List (List CodePoint)) :=
  (Extent.ofNode atLeastOnce p.root).map fun _ => p.shortestWitnesses atLeastOnce

/-! ## Section 2: Attacks -/

namespace Attack

/-- The input with a number of repetitions, if it is within the limits. -/
def input (a : Attack) (repetitions : Nat) : Except OversizeError (List CodePoint) :=
  (Extent.repeated a.unit.length repetitions).map fun _ => a.build repetitions

end Attack

namespace Pattern

/-- Checks the witnesses that an attack at a quantifier needs: the shortest
    ones, and those with at least one repetition if no seed is given and the
    shortest one of the body is empty. -/
def checkExtent (p : Pattern) (quantifier : Visit) (seed : List CodePoint) :
    Except OversizeError Unit := do
  let _ ← Extent.ofNode false p.root
  let body ← Extent.ofNodes false quantifier.node.children
  if seed.isEmpty && Extent.sum body == 0 then
    let _ ← Extent.ofNode true p.root

/-- The attack at a site, or at the first repeating quantifier, if the
    witnesses are within the limits; without any quantifier none are
    needed. -/
def prepareAttack (p : Pattern) (site : Option RiskSite) (seed : List CodePoint) :
    Except OversizeError Attack := do
  if let some quantifier := p.attackedQuantifier? site then p.checkExtent quantifier seed
  return p.attack site seed

end Pattern

end RegexInsight
