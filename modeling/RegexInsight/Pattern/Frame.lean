import RegexInsight.Pattern.Modes
import RegexInsight.Pattern.Node

/-! # Frames

    A frame is an open group: what it will close into, the branches read
    so far and the items of the branch being read.  Closing a frame
    completes its branches first, then the alternation over them if there
    are several, then the group itself. -/

namespace RegexInsight

/-- What a frame closes into. -/
inductive Opener where
  /-- The whole pattern, which adds no node of its own. -/
  | root
  | group (kind : GroupKind)
  | lookaround (direction : LookDirection) (negated : Bool)
  | conditional (condition : Text)
  deriving DecidableEq, Repr

/-- An open group. -/
structure Frame where
  opener : Opener
  start : Nat
  /-- The flags in force at this point of the group. -/
  modes : Modes
  /-- The items of the finished branches, the latest branch first. -/
  finished : List (List Node)
  /-- The items of the current branch, the latest first. -/
  items : List Node
  /-- The last thing read was a quantifier. -/
  quantified : Bool
  deriving Repr

namespace Frame

/-- A frame in which nothing has been read. -/
def opened (opener : Opener) (start : Nat) (modes : Modes) : Frame :=
  ⟨opener, start, modes, [], [], false⟩

/-- The items of all branches, in pattern order. -/
def branches (f : Frame) : List (List Node) :=
  (f.items.reverse :: f.finished).reverse

/-- Appends an item to the current branch. -/
def push (f : Frame) (item : Node) : Frame :=
  { f with items := item :: f.items, quantified := false }

/-- Begins the next branch. -/
def nextBranch (f : Frame) : Frame :=
  { f with finished := f.items.reverse :: f.finished, items := [], quantified := false }

end Frame

/-! ## Closing -/

/-- The node of one branch, with the number of nodes completed after it: a
    single item stands for itself, no item is an empty node at `stop`, and
    several are a concatenation. -/
def closeBranch (count : Nat) (stop : Nat) : List Node → Node × Nat
  | [] => (.build count .empty stop stop [], count + 1)
  | [only] => (only, count)
  | first :: second :: rest =>
    let last := rest.getLastD second
    (.build count .concat first.start last.stop (first :: second :: rest), count + 1)

/-- The nodes of several branches. -/
def closeBranches (count : Nat) (stop : Nat) : List (List Node) → List Node × Nat
  | [] => ([], count)
  | items :: rest =>
    let (branch, afterBranch) := closeBranch count stop items
    let (others, afterAll) := closeBranches afterBranch stop rest
    (branch :: others, afterAll)

/-- The least start of some nodes. -/
def leastStart : List Node → Nat
  | [] => 0
  | n :: rest => rest.foldl (fun least m => min least m.start) n.start

/-- The greatest stop of some nodes. -/
def greatestStop (nodes : List Node) : Nat :=
  nodes.foldl (fun greatest m => max greatest m.stop) 0

/-- The body over the nodes of all branches. -/
def closeBody (count : Nat) : List Node → Node × Nat
  | [only] => (only, count)
  | bodies =>
    (.build count .alternation (leastStart bodies) (greatestStop bodies) bodies, count + 1)

/-- Closes a frame at `stop`, when `count` nodes are complete. -/
def Frame.close (f : Frame) (count : Nat) (stop : Nat) : Read (Node × Nat) :=
  let (bodies, afterBranches) := closeBranches count stop f.branches
  match f.opener with
  | .conditional condition =>
    if bodies.length > 2 then .fail .tooManyConditionalBranches f.start
    else .ok (.build afterBranches (.conditional condition) f.start stop bodies,
      afterBranches + 1)
  | .root => .ok (closeBody afterBranches bodies)
  | .lookaround direction negated =>
    let (body, afterBody) := closeBody afterBranches bodies
    .ok (.build afterBody (.lookaround direction negated) f.start stop [body], afterBody + 1)
  | .group kind =>
    let (body, afterBody) := closeBody afterBranches bodies
    .ok (.build afterBody (.group kind) f.start stop [body], afterBody + 1)

end RegexInsight
