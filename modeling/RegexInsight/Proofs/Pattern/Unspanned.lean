import Mathlib
import RegexInsight.Proofs.Pattern.Explicit

/-! # Trees without their spans

    The same piece of pattern may be read at two places.  The trees are then
    the same up to the spans of their nodes: nothing that is built from nodes
    looks at a span except to make another one.  So whatever closes a frame
    commutes with forgetting the spans, and this is how the tree of one run
    is carried over to another. -/

namespace RegexInsight

/-! ## Section 1: Nodes -/

/-- A mark without the place in the text. -/
def Mark.unspanned (mark : Mark) : Mark :=
  ⟨mark.index, 0, 0, mark.reach⟩

namespace Node

mutual

/-- A node without the places in the text, its own and those below it. -/
def unspanned : Node → Node
  | node label mark children => .node label mark.unspanned (unspannedAll children)

/-- Some nodes without their places in the text. -/
def unspannedAll : List Node → List Node
  | [] => []
  | n :: rest => n.unspanned :: unspannedAll rest

end

theorem unspannedAll_eq_map (nodes : List Node) : unspannedAll nodes = nodes.map unspanned := by
  induction nodes with
  | nil => rfl
  | cons n rest ih => rw [unspannedAll, ih, List.map_cons]

theorem unspanned_node (label : Label) (mark : Mark) (children : List Node) :
    (node label mark children).unspanned =
      node label mark.unspanned (children.map unspanned) := by
  rw [unspanned, unspannedAll_eq_map]

@[simp] theorem label_unspanned (n : Node) : n.unspanned.label = n.label := by
  cases n
  rfl

@[simp] theorem index_unspanned (n : Node) : n.unspanned.index = n.index := by
  cases n
  rfl

@[simp] theorem reach_unspanned (n : Node) : n.unspanned.reach = n.reach := by
  cases n
  rfl

@[simp] theorem start_unspanned (n : Node) : n.unspanned.start = 0 := by
  cases n
  rfl

@[simp] theorem stop_unspanned (n : Node) : n.unspanned.stop = 0 := by
  cases n
  rfl

@[simp] theorem kind_unspanned (n : Node) : n.unspanned.kind = n.kind :=
  congrArg Label.kind n.label_unspanned

@[simp] theorem isRepeating_unspanned (n : Node) : n.unspanned.isRepeating = n.isRepeating :=
  congrArg Label.isRepeating n.label_unspanned

@[simp] theorem chars_unspanned (n : Node) : n.unspanned.chars = n.chars :=
  congrArg Reach.chars n.reach_unspanned

@[simp] theorem first_unspanned (n : Node) : n.unspanned.first = n.first :=
  congrArg Reach.first n.reach_unspanned

@[simp] theorem minWidth_unspanned (n : Node) : n.unspanned.minWidth = n.minWidth :=
  congrArg Reach.minWidth n.reach_unspanned

theorem children_unspanned (n : Node) : n.unspanned.children = n.children.map unspanned := by
  cases n
  rw [unspanned_node]
  rfl

theorem unspanned_build (count : Nat) (label : Label) (start stop : Nat) (children : List Node) :
    (build count label start stop children).unspanned =
      build count label 0 0 (children.map unspanned) := by
  have hreach : (children.map unspanned).map reach = children.map reach := by
    rw [List.map_map]
    exact List.map_congr_left fun child _ => child.reach_unspanned
  rw [build, unspanned_node, build, hreach]
  rfl

theorem preorder_unspanned (n : Node) : n.unspanned.preorder = n.preorder.map unspanned := by
  induction n using Node.induction with
  | node label mark children ih =>
    rw [unspanned_node, preorder_node, preorder_node, List.map_cons, unspanned_node,
      List.map_flatMap, List.flatMap_map]
    exact congrArg _ (List.flatMap_congr ih)

end Node

open Node (unspanned)

/-! ## Section 2: Closing -/

theorem closeBranch_unspanned (count stop : Nat) (items : List Node) :
    closeBranch count 0 (items.map unspanned) =
      ((closeBranch count stop items).1.unspanned, (closeBranch count stop items).2) := by
  match items with
  | [] => rfl
  | [only] => rfl
  | first :: second :: rest =>
    have hlast : (rest.map unspanned).getLastD second.unspanned =
        (rest.getLastD second).unspanned := List.getLastD_map
    simp only [closeBranch, List.map_cons, hlast, Node.unspanned_build, Node.start_unspanned,
      Node.stop_unspanned]

theorem closeBranches_unspanned (count stop : Nat) (branches : List (List Node)) :
    closeBranches count 0 (branches.map (List.map unspanned)) =
      ((closeBranches count stop branches).1.map unspanned,
        (closeBranches count stop branches).2) := by
  induction branches generalizing count with
  | nil => rfl
  | cons items rest ih =>
    simp only [closeBranches, List.map_cons, closeBranch_unspanned count stop, ih]

theorem leastStart_unspanned (nodes : List Node) : leastStart (nodes.map unspanned) = 0 := by
  cases nodes with
  | nil => rfl
  | cons n rest =>
    show (rest.map unspanned).foldl (fun least m => min least m.start) n.unspanned.start = 0
    rw [n.start_unspanned]
    induction rest with
    | nil => rfl
    | cons m rest ih => rwa [List.map_cons, List.foldl_cons, Nat.zero_min]

theorem greatestStop_unspanned (nodes : List Node) : greatestStop (nodes.map unspanned) = 0 := by
  unfold greatestStop
  induction nodes with
  | nil => rfl
  | cons n rest ih => rwa [List.map_cons, List.foldl_cons, n.stop_unspanned, Nat.max_self]

theorem closeBody_unspanned (count : Nat) (bodies : List Node) :
    closeBody count (bodies.map unspanned) =
      ((closeBody count bodies).1.unspanned, (closeBody count bodies).2) := by
  have hmany : ∀ nodes : List Node,
      Node.build count .alternation (leastStart (nodes.map unspanned))
          (greatestStop (nodes.map unspanned)) (nodes.map unspanned) =
        (Node.build count .alternation (leastStart nodes) (greatestStop nodes)
          nodes).unspanned := by
    intro nodes
    rw [Node.unspanned_build, leastStart_unspanned, greatestStop_unspanned]
  match bodies with
  | [] => exact congrArg (·, count + 1) (hmany [])
  | [only] => rfl
  | first :: second :: rest => exact congrArg (·, count + 1) (hmany (first :: second :: rest))

namespace Frame

variable {f : Frame} {count count' : Nat} {node : Node}

/-- A frame without the places in the text. -/
def unspanned (f : Frame) : Frame where
  opener := f.opener
  start := 0
  modes := f.modes
  finished := f.finished.map (List.map Node.unspanned)
  items := f.items.map Node.unspanned
  quantified := f.quantified

theorem branches_unspanned (f : Frame) :
    f.unspanned.branches = f.branches.map (List.map Node.unspanned) := by
  simp [branches, unspanned, List.map_reverse]

theorem unspanned_push (f : Frame) (item : Node) :
    (f.push item).unspanned = f.unspanned.push item.unspanned := rfl

theorem unspanned_nextBranch (f : Frame) : f.nextBranch.unspanned = f.unspanned.nextBranch := by
  simp [nextBranch, unspanned, List.map_reverse]

/-- A frame closes where it does without its places in the text. -/
theorem close_unspanned (stop : Nat) : f.unspanned.close count 0 = .ok (node, count') ↔
    ∃ closed, f.close count stop = .ok (closed, count') ∧ closed.unspanned = node := by
  -- each opener closes with one such pair, or fails
  have hpair : ∀ (closed : Node) (n : Nat),
      (.ok (closed.unspanned, n) : Read (Node × Nat)) = .ok (node, count') ↔
        ∃ other, (.ok (closed, n) : Read (Node × Nat)) = .ok (other, count') ∧
          other.unspanned = node := by
    intro closed n
    constructor
    · intro h
      obtain ⟨rfl, rfl⟩ := Prod.mk.inj (Except.ok.inj h)
      exact ⟨closed, rfl, rfl⟩
    · intro h
      obtain ⟨other, h, rfl⟩ := h
      obtain ⟨rfl, rfl⟩ := Prod.mk.inj (Except.ok.inj h)
      rfl
  have hbranches := closeBranches_unspanned count stop f.branches
  rw [← branches_unspanned] at hbranches
  unfold close
  rw [hbranches]
  dsimp only [unspanned]
  cases f.opener with
  | root =>
    simp only [closeBody_unspanned]
    exact hpair _ _
  | group kind =>
    simp only [closeBody_unspanned]
    rw [← hpair, Node.unspanned_build]
    rfl
  | lookaround direction negated =>
    simp only [closeBody_unspanned]
    rw [← hpair, Node.unspanned_build]
    rfl
  | conditional condition =>
    simp only [List.length_map]
    split
    next => simp [Read.fail]
    next => rw [← hpair, Node.unspanned_build]

end Frame

end RegexInsight
