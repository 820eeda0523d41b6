import RegexInsight.Pattern.Node

/-! # Arena

    The nodes of a pattern as a table in the order of their completion, so
    that the number of a node is its place in the table.  Children are
    completed before their parent, and the root is the last entry.

    Traversals of the table work on numbers: the pre-order with a stack of
    entries still to visit, the ancestors through a table of parents. -/

namespace RegexInsight

/-- A node with its children named by number. -/
structure Entry where
  label : Label
  start : Nat
  stop : Nat
  reach : Reach
  children : List Nat
  deriving Repr

/-- The table entry of a node. -/
def Node.entry (n : Node) : Entry :=
  ⟨n.label, n.start, n.stop, n.reach, n.children.map index⟩

/-- All nodes of a tree in the order of their completion. -/
def Node.completed (root : Node) : List Node :=
  root.preorder.mergeSort fun a b => a.index ≤ b.index

/-- A table of nodes. -/
structure Arena where
  entries : Array Entry
  deriving Repr

namespace Arena

/-- The table of a tree. -/
def ofNode (root : Node) : Arena :=
  ⟨(root.completed.map Node.entry).toArray⟩

/-- The number of nodes. -/
def size (a : Arena) : Nat := a.entries.size

/-- The number of the root. -/
def root (a : Arena) : Nat := a.size - 1

/-- The children of a node; none for a number that is not in the table. -/
def children (a : Arena) (i : Nat) : List Nat :=
  match a.entries[i]? with
  | some entry => entry.children
  | none => []

/-- The parent of every node, none for the root. -/
def parents (a : Arena) : Array (Option Nat) :=
  (List.range a.size).foldl
    (fun table i =>
      (a.children i).foldl (fun table child => table.setIfInBounds child (some i)) table)
    (Array.replicate a.size none)

/-- Visits the nodes on a stack, each before its children.  A table of a
    tree has every node below one place only, so its size is fuel
    enough. -/
def walkStack (a : Arena) : Nat → List Nat → Array Nat → Array Nat
  | 0, _, visited => visited
  | _ + 1, [], visited => visited
  | fuel + 1, i :: stack, visited =>
    walkStack a fuel (a.children i ++ stack) (visited.push i)

/-- The nodes from `start` downwards in pre-order. -/
def walk (a : Arena) (start : Nat) : List Nat :=
  (a.walkStack a.size [start] #[]).toList

/-- The nodes of a kind from `start` downwards in pre-order. -/
def find (a : Arena) (kind : NodeKind) (start : Nat) : List Nat :=
  (a.walk start).filter fun i => a.entries[i]?.any fun entry => entry.label.kind == kind

/-- Follows parents upwards.  Numbers grow on the way, so the size of the
    table is fuel enough. -/
def climb (parents : Array (Option Nat)) : Nat → Nat → List Nat
  | 0, _ => []
  | fuel + 1, i =>
    match parents[i]? with
    | some (some parent) => parent :: climb parents fuel parent
    | _ => []

/-- The ancestors of a node, the nearest first. -/
def ancestors (a : Arena) (i : Nat) : List Nat :=
  climb a.parents a.size i

end Arena

end RegexInsight
