import RegexInsight.Form
import RegexInsight.Text.Run
import RegexInsight.Unicode.Case

/-! # Shapes

    A form for texts of one shape.  A position at which all texts agree
    becomes literal text; any other position becomes a class, repeated as
    often as the runs at that position are long.  Texts of different shape
    are compared position by position as far as the shortest goes. -/

namespace RegexInsight

/-! ## Section 1: Positions -/

/-- The runs of some texts position by position, up to the first position
    that some text does not have. -/
def positionsFrom : List Run → List (List Run) → List (List Run)
  | [], _ => []
  | r :: rest, others =>
    match others.mapM List.head? with
    | some runs => (r :: runs) :: positionsFrom rest (others.map List.tail)
    | none => []

/-- The runs of some texts position by position. -/
def positions : List (List Run) → List (List Run)
  | [] => []
  | first :: others => positionsFrom first others

/-! ## Section 2: The form of a position -/

/-- The class for texts that differ.  The kind is that of the first run; the
    texts tell the case of letters, and whether there are spaces. -/
def classFor (kind : CharKind) (texts : List Text) : FormClass :=
  match kind with
  | .digit => .digit
  | .letter =>
    if texts.all isLowerText then .lower
    else if texts.all isUpperText then .upper
    else .letter
  | .punct | .other =>
    if texts.all fun t => t.all isSpace then .shorthand .space
    else if texts.all fun t => t.all fun c => !isSpace c then .shorthand .notSpace
    else .anything

/-- The least of some lengths. -/
def leastLength (lengths : List Nat) : Nat :=
  lengths.foldl min (lengths.headD 0)

/-- The greatest of some lengths. -/
def greatestLength (lengths : List Nat) : Nat :=
  lengths.foldl max 0

/-- Whether the texts at a position all are the same. -/
def agree (texts : List Text) : Bool :=
  match texts with
  | [] => true
  | first :: rest => rest.all fun t => t == first

/-- The texts at a position have different lengths. -/
def isRanged (texts : List Text) : Bool :=
  let lengths := texts.map List.length
  !agree texts && leastLength lengths != greatestLength lengths

/-- The form for the runs at a position. -/
def formOfPosition (runs : List Run) : Form :=
  let texts := runs.map Run.text
  match runs with
  | [] => .empty
  | r :: _ =>
    if agree texts then .literal r.text
    else
      let lengths := texts.map List.length
      let low := leastLength lengths
      let high := greatestLength lengths
      let member := Form.one (classFor r.kind texts)
      if low = high && low = 1 then member
      else if low = high then .exactly low member
      else .between low high member

/-! ## Section 3: The form of a group -/

/-- A form with the number of positions at which lengths differ. -/
structure ShapeForm where
  form : Form
  ranged : Nat
  deriving DecidableEq, Repr

/-- The form for the runs of some texts. -/
def ShapeForm.ofRuns (group : List (List Run)) : ShapeForm :=
  let columns := positions group
  { form := .sequence (columns.map formOfPosition)
    ranged := (columns.filter fun runs => isRanged (runs.map Run.text)).length }

end RegexInsight
