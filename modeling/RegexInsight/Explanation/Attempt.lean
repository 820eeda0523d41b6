import RegexInsight.Explanation.Summary

/-! # Steps that can fail

    Any tree can be explained in words, but not every step on the way is
    sure to succeed: the operand of a node has to be there, the text of a
    property has to have a letter behind its backslash, the numbers of a
    quantifier have to be written, and the numeral of a reference has to be
    read.  An attempt at an explanation takes these steps and stops at the
    first that fails. -/

namespace RegexInsight

/-- Why a pattern is not explained. -/
inductive ExplainError where
  /-- There is nothing below a quantifier, a group or a lookaround. -/
  | missingOperand
  /-- The text of a property ends before its letter. -/
  | shortProperty
  /-- A number cannot be read or written. -/
  | numeral (error : NumeralError)
  deriving DecidableEq, Repr

/-- The numbers in the words for bounds. -/
def Bounds.spoken (b : Bounds) : List Nat :=
  match b.min, b.max with
  | 0, some 1 => []
  | 0, none => []
  | 1, none => []
  | low, none => [low]
  | low, some high => if low = high then [low] else [low, high]

/-- Writes a number. -/
def attemptNumber (n : Nat) : Except ExplainError Unit :=
  match Numeral.write n with
  | .ok _ => .ok ()
  | .error e => .error (.numeral e)

/-- Reads the target of a reference, if it looks like a number. -/
def attemptTarget (target : Text) : Except ExplainError Unit :=
  if isDigitText target then
    match Numeral.read target with
    | .ok _ => .ok ()
    | .error e => .error (.numeral e)
  else .ok ()

/-- Looks for the letter of a property. -/
def attemptProperty (source : Text) (traits : ClassTraits) : Except ExplainError Unit :=
  if source.head? ≠ some '[' ∧ traits.unicodeProperty = true ∧ source.length < 2 then
    .error .shortProperty
  else .ok ()

namespace Node

/-- Looks for the first child. -/
def attemptOperand (n : Node) : Except ExplainError Unit :=
  match n.children with
  | [] => .error .missingOperand
  | _ :: _ => .ok ()

/-- Takes the steps for a node that can fail. -/
def attempt (n : Node) : Except ExplainError Unit :=
  match n.label with
  | .charClass source traits _ => attemptProperty source traits
  | .quantifier bounds _ => do
    n.attemptOperand
    bounds.spoken.forM attemptNumber
  | .group _ => n.attemptOperand
  | .lookaround _ _ => n.attemptOperand
  | .backreference target => attemptTarget target
  | _ => .ok ()

end Node

mutual

/-- The parts of a node, if all steps for it and below it succeed. -/
def tryNode (p : Pattern) : Node → Except ExplainError (List Part)
  | .node label mark children => do
    let bodies ← tryNodes p children
    (Node.node label mark children).attempt
    return partsOf p (.node label mark children) bodies

/-- The parts of some nodes, one list for each. -/
def tryNodes (p : Pattern) : List Node → Except ExplainError (List (List Part))
  | [] => .ok []
  | n :: rest => do
    let parts ← tryNode p n
    let others ← tryNodes p rest
    return parts :: others

end

/-- A pattern in words, if it can be put into words. -/
def Pattern.tryExplain (p : Pattern) : Except ExplainError Explanation := do
  let parts ← tryNode p p.root
  return ⟨p.text, parts, summarize p.text parts⟩

end RegexInsight
