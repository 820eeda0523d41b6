import RegexInsight.Repetition

/-! # Scanning with a stack

    The scan for ambiguous repetitions without recursion over the tree.
    The places still to be looked at wait on a stack, each with the number
    of the nearest repeating quantifier above it, and the depths of the
    quantifiers that were passed are looked up in a table. -/

namespace RegexInsight

/-- The visits of the given children, `before` being the children in front
    of them, nearest first. -/
def Visit.childrenFrom (parent : Visit) (before : List Node) : List Node → List Visit
  | [] => []
  | child :: after =>
    ⟨child, ⟨parent.node, before, after⟩ :: parent.path⟩ ::
      parent.childrenFrom (child :: before) after

/-- The visits of the children, in pattern order. -/
def Visit.children (parent : Visit) : List Visit :=
  parent.childrenFrom [] parent.node.children

/-- A place that waits to be looked at. -/
structure Pending where
  visit : Visit
  /-- The nearest repeating quantifier above it. -/
  quantifier : Option Visit
  /-- That quantifier, or an atomic group since, never gives back what it
      matched. -/
  barrier : Bool

/-- What a scan knows after some of the places. -/
structure Scanned where
  /-- The depths of the quantifiers passed, by number, the latest first. -/
  depths : List (Nat × Nat)
  overlapping : Bool
  /-- The ambiguous places in the order in which they were found. -/
  sites : List RiskSite

namespace Scanned

/-- The depth that was noted for a quantifier. -/
def depthOf (s : Scanned) (q : Visit) : Nat :=
  ((s.depths.find? fun entry => entry.1 == q.node.index).map Prod.snd).getD 0

/-- The quantifier around a waiting place. -/
def enclosing (s : Scanned) (place : Pending) : Option Enclosing :=
  place.quantifier.map fun a => ⟨a, s.depthOf a, place.barrier⟩

/-- Notes what was found at a place. -/
def note (s : Scanned) (v : Visit) (here : RepetitionScan) : Scanned where
  depths := if v.node.isRepeating then (v.node.index, here.depth) :: s.depths else s.depths
  overlapping := s.overlapping || here.overlapping
  sites := s.sites ++ here.sites

/-- The children of a place, which wait with the quantifier around them. -/
def waiting (v : Visit) (inner : Option Enclosing) : List Pending :=
  v.children.map fun child =>
    ⟨child, inner.map Enclosing.quantifier, (inner.map Enclosing.barrier).getD false⟩

/-- Looks at the places on the stack, the children of each before the places
    below it.  Every place is looked at once, so the number of nodes is
    fuel enough. -/
def run : Nat → List Pending → Scanned → Scanned
  | 0, _, s => s
  | _ + 1, [], s => s
  | fuel + 1, place :: stack, s =>
    let (here, inner) := scanHere (s.enclosing place) place.visit
    run fuel (waiting place.visit inner ++ stack) (s.note place.visit here)

/-- The outcome when no place is left. -/
def outcome (s : Scanned) : RepetitionScan :=
  ⟨(s.depths.map Prod.snd).foldr max 0, s.overlapping, s.sites⟩

end Scanned

/-- Scans a whole tree with a stack. -/
def scanWithStack (root : Node) : RepetitionScan :=
  (Scanned.run root.visits.length [⟨⟨root, []⟩, none, false⟩] ⟨[], false, []⟩).outcome

end RegexInsight
