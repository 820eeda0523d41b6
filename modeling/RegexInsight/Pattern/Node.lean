import RegexInsight.Pattern.Reach

/-! # Nodes

    A pattern is a tree of labelled nodes.  Every node records where it
    stands in the pattern text, its number in the order in which the nodes
    were completed, and its reach.

    Nodes are visited in pattern order.  A visit keeps the way down from
    the root as a list of steps, the nearest ancestor first, and each step
    remembers the siblings on both sides; what precedes or follows a node
    within its ancestors is read off the steps. -/

namespace RegexInsight

/-- A piece of text between two positions. -/
def slice (text : Text) (start stop : Nat) : Text :=
  (text.drop start).take (stop - start)

/-- Where a node stands and what it consumes. -/
structure Mark where
  /-- The number of nodes completed before this one. -/
  index : Nat
  start : Nat
  stop : Nat
  reach : Reach
  deriving DecidableEq, Repr

/-- A node with its children in pattern order. -/
inductive Node where
  | node (label : Label) (mark : Mark) (children : List Node)
  deriving Repr

namespace Node

/-! ## Section 1: Parts -/

def label : Node → Label
  | node label _ _ => label

def mark : Node → Mark
  | node _ mark _ => mark

def children : Node → List Node
  | node _ _ children => children

def index (n : Node) : Nat := n.mark.index

def start (n : Node) : Nat := n.mark.start

def stop (n : Node) : Nat := n.mark.stop

def reach (n : Node) : Reach := n.mark.reach

def kind (n : Node) : NodeKind := n.label.kind

/-- The characters that the node may consume. -/
def chars (n : Node) : CharSet := n.reach.chars

/-- The characters with which a non-empty match of the node may start. -/
def first (n : Node) : CharSet := n.reach.first

def minWidth (n : Node) : Nat := n.reach.minWidth

def maxWidth (n : Node) : Option Nat := n.reach.maxWidth

def isRepeating (n : Node) : Bool := n.label.isRepeating

/-- A node over completed children, with the reach that follows from
    them. -/
def build (index : Nat) (label : Label) (start stop : Nat) (children : List Node) : Node :=
  node label ⟨index, start, stop, label.reach (children.map reach)⟩ children

/-- The text of a node in the pattern that it was read from. -/
def textIn (pattern : Text) (n : Node) : Text :=
  slice pattern n.start n.stop

/-! ## Section 2: Visits -/

end Node

/-- One step down: the node entered, the siblings before the chosen child,
    nearest first, and the siblings after it. -/
structure Step where
  parent : Node
  before : List Node
  after : List Node

/-- A node together with the steps that lead to it, the last step first. -/
structure Visit where
  node : Node
  path : List Step

namespace Visit

/-- The ancestors of the visited node, the nearest first. -/
def ancestors (v : Visit) : List Node :=
  v.path.map Step.parent

end Visit

namespace Node

mutual

/-- The visits of a node and everything below it, in pattern order. -/
def visitsFrom (path : List Step) : Node → List Visit
  | node label mark children =>
    ⟨node label mark children, path⟩ ::
      visitsOf (node label mark children) path [] children

/-- The visits below `parent` from the given children on. -/
def visitsOf (parent : Node) (path : List Step) (before : List Node) :
    List Node → List Visit
  | [] => []
  | child :: after =>
    child.visitsFrom (⟨parent, before, after⟩ :: path) ++
      visitsOf parent path (child :: before) after

end

/-- The visits of a whole tree. -/
def visits (n : Node) : List Visit :=
  n.visitsFrom []

/-- The node and everything below it, in pattern order. -/
def preorder (n : Node) : List Node :=
  n.visits.map Visit.node

end Node

end RegexInsight
