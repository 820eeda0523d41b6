import RegexInsight.Explanation

/-! # Assembling parts from the table

    The parts of a pattern without recursion over the tree.  The nodes are
    gone through in the order of their completion, and the parts of each
    wait in a slot until its parent takes them out.  Nothing is copied: a
    slot that was emptied gives no parts a second time. -/

namespace RegexInsight

/-- The parts that wait for the parents of their nodes, by number. -/
abbrev Slots := Array (Option (List Part))

namespace Slots

/-- The parts in a slot, and the slots without them. -/
def takeOut (slots : Slots) (i : Nat) : List Part × Slots :=
  (slots[i]?.join.getD [], slots.setIfInBounds i none)

/-- Empties some slots one after the other. -/
def takeOutAll (slots : Slots) : List Nat → List (List Part) × Slots
  | [] => ([], slots)
  | i :: rest =>
    let (body, slots) := takeOut slots i
    let (bodies, slots) := takeOutAll slots rest
    (body :: bodies, slots)

end Slots

/-- The children whose parts a node takes.  A node over one body takes its
    first child, which it needs to have. -/
def Label.taken? (children : List Nat) : Label → Option (List Nat)
  | concat => some children
  | alternation => some children
  | conditional _ => some children
  | quantifier .. => children.head?.map fun child => [child]
  | group _ => children.head?.map fun child => [child]
  | lookaround .. => children.head?.map fun child => [child]
  | _ => some []

/-- The node of an entry over some children. -/
def Entry.over (entry : Entry) (i : Nat) (children : List Node) : Node :=
  .node entry.label ⟨i, entry.start, entry.stop, entry.reach⟩ children

/-- The node with a number, over its children without what stands below
    them; none if a number is not in the table. -/
def Arena.node? (a : Arena) (i : Nat) : Option Node := do
  let entry ← a.entries[i]?
  let children ← entry.children.mapM fun child =>
    a.entries[child]?.map fun below => below.over child []
  return entry.over i children

namespace Pattern

/-- Puts the parts of a node into its slot, and takes those of its children
    out of theirs. -/
def assembleAt (p : Pattern) (slots : Slots) (i : Nat) : Option Slots := do
  let n ← p.arena.node? i
  let taken ← n.label.taken? (n.children.map Node.index)
  let (bodies, slots) := slots.takeOutAll taken
  return slots.setIfInBounds i (some (partsOf p n bodies))

/-- The parts of a pattern, assembled from the table of its nodes; none if a
    node lacks a child that it needs. -/
def assemble? (p : Pattern) : Option (List Part) := do
  let slots ← (List.range p.arena.size).foldlM p.assembleAt (Array.replicate p.arena.size none)
  return slots[p.arena.root]?.join.getD []

end Pattern

end RegexInsight
