import Mathlib
import RegexInsight.Proofs.Pattern.Move
import RegexInsight.Proofs.Pattern.Tree

/-! # Numbering

    Nodes are numbered in the order of their completion.  At every point
    of reading, the numbers of the nodes in all open frames are exactly
    those given out so far, each of them once, and numbers grow from
    children to parents.  Completing a node over some of the nodes at hand
    keeps this, and every way to close a branch, a body or a frame is a
    sequence of such completions. -/

namespace RegexInsight

/-! ## Section 1: Numbered nodes -/

/-- Some nodes and what stands below them carry the numbers below `count`,
    each once, and larger numbers stand above smaller ones. -/
structure Numbered (nodes : List Node) (count : Nat) : Prop where
  perm : (nodes.flatMap Node.indices).Perm (List.range count)
  ascending : ∀ n ∈ nodes, n.Ascending

namespace Numbered

variable {nodes nodes' others : List Node} {count : Nat}

theorem of_perm (h : Numbered nodes count) (hperm : nodes'.Perm nodes) :
    Numbered nodes' count where
  perm := (hperm.flatMap_right _).trans h.perm
  ascending n hn := h.ascending n (hperm.mem_iff.mp hn)

theorem lt_of_mem (h : Numbered nodes count) {n : Node} (hn : n ∈ nodes) : n.index < count := by
  have hmem : n.index ∈ nodes.flatMap Node.indices :=
    List.mem_flatMap.mpr ⟨n, hn, n.index_mem_indices⟩
  exact List.mem_range.mp (h.perm.mem_iff.mp hmem)

/-- The next node may be completed over any of the nodes at hand. -/
theorem build (children : List Node) (h : Numbered (children ++ others) count) (label : Label)
    (start stop : Nat) :
    Numbered (.build count label start stop children :: others) (count + 1) where
  perm := by
    rw [List.flatMap_cons, Node.indices_build, List.cons_append, ← List.flatMap_append,
      List.range_succ]
    exact (h.perm.cons count).trans (List.perm_append_singleton count _).symm
  ascending n hn := by
    rcases List.mem_cons.mp hn with rfl | hn
    · refine Node.ascending_node (fun child hchild => ?_) fun child hchild => ?_
      · exact h.lt_of_mem (List.mem_append_left _ hchild)
      · exact h.ascending child (List.mem_append_left _ hchild)
    · exact h.ascending n (List.mem_append_right _ hn)

/-! ## Section 2: Closing -/

theorem closeBranch {items : List Node} (h : Numbered (items ++ others) count) (stop : Nat) :
    Numbered ((closeBranch count stop items).1 :: others) (closeBranch count stop items).2 := by
  match items with
  | [] => exact build [] h .empty stop stop
  | [only] => exact h
  | first :: second :: rest => exact build _ h .concat _ _

theorem closeBranches {branches : List (List Node)}
    (h : Numbered (branches.flatten ++ others) count) (stop : Nat) :
    Numbered ((closeBranches count stop branches).1 ++ others)
      (closeBranches count stop branches).2 := by
  induction branches generalizing count others with
  | nil => exact h
  | cons items rest ih =>
    rw [List.flatten_cons, List.append_assoc] at h
    -- the closed branch waits among the others while the rest is closed
    have hbranch := h.closeBranch stop
    have hwait : Numbered (rest.flatten ++
        (RegexInsight.closeBranch count stop items).1 :: others) _ :=
      hbranch.of_perm List.perm_middle
    have hrest := ih hwait
    exact hrest.of_perm List.perm_middle.symm

theorem closeBody {bodies : List Node} (h : Numbered (bodies ++ others) count) :
    Numbered ((closeBody count bodies).1 :: others) (closeBody count bodies).2 := by
  match bodies with
  | [] => exact build [] h .alternation _ _
  | [only] => exact h
  | first :: second :: rest => exact build _ h .alternation _ _

end Numbered

/-- All items of a frame. -/
def Frame.nodes (f : Frame) : List Node :=
  f.branches.flatten

@[simp] theorem Frame.nodes_opened (opener : Opener) (start : Nat) (modes : Modes) :
    (Frame.opened opener start modes).nodes = [] := rfl

@[simp] theorem Frame.nodes_push (f : Frame) (n : Node) : (f.push n).nodes = f.nodes ++ [n] := by
  simp [Frame.nodes, Frame.branches, Frame.push]

/-- The latest item of the current branch stands last. -/
theorem Frame.nodes_of_items {f : Frame} {item : Node} {items : List Node}
    (h : f.items = item :: items) : f.nodes = { f with items := items }.nodes ++ [item] := by
  simp [Frame.nodes, Frame.branches, h]

@[simp] theorem Frame.nodes_nextBranch (f : Frame) : f.nextBranch.nodes = f.nodes := by
  simp [Frame.nodes, Frame.branches, Frame.nextBranch]

/-- What a frame closes into, over the nodes of its branches, and how many
    nodes are complete then. -/
inductive Frame.Closed (f : Frame) (stop : Nat) (bodies : List Node) (count : Nat) :
    Node → Nat → Prop where
  /-- The root adds no node to its body. -/
  | root (hopener : f.opener = .root) :
      Closed f stop bodies count (closeBody count bodies).1 (closeBody count bodies).2
  /-- A conditional stands over its branches themselves. -/
  | conditional {condition : Text} (hopener : f.opener = .conditional condition)
      (hfew : bodies.length ≤ 2) :
      Closed f stop bodies count (.build count (.conditional condition) f.start stop bodies)
        (count + 1)
  | lookaround {direction : LookDirection} {negated : Bool}
      (hopener : f.opener = .lookaround direction negated) :
      Closed f stop bodies count
        (.build (closeBody count bodies).2 (.lookaround direction negated) f.start stop
          [(closeBody count bodies).1])
        ((closeBody count bodies).2 + 1)
  | group {kind : GroupKind} (hopener : f.opener = .group kind) :
      Closed f stop bodies count
        (.build (closeBody count bodies).2 (.group kind) f.start stop [(closeBody count bodies).1])
        ((closeBody count bodies).2 + 1)

theorem Frame.closed_of_close {f : Frame} {count count' stop : Nat} {node : Node}
    (h : f.close count stop = .ok (node, count')) :
    f.Closed stop (closeBranches count stop f.branches).1 (closeBranches count stop f.branches).2
      node count' := by
  unfold close at h
  dsimp only at h
  split at h
  next hopener =>
    obtain ⟨hfew, hpair⟩ := Read.guard_eq_ok.mp h
    obtain ⟨rfl, rfl⟩ := Prod.mk.inj (Except.ok.inj hpair)
    exact .conditional hopener (Nat.not_lt.mp hfew)
  next hopener =>
    obtain ⟨rfl, rfl⟩ := Prod.mk.inj (Except.ok.inj h)
    exact .root hopener
  next hopener =>
    obtain ⟨rfl, rfl⟩ := Prod.mk.inj (Except.ok.inj h)
    exact .lookaround hopener
  next hopener =>
    obtain ⟨rfl, rfl⟩ := Prod.mk.inj (Except.ok.inj h)
    exact .group hopener

/-- The root always closes into its body. -/
theorem Frame.close_of_root {f : Frame} (h : f.opener = .root) (count stop : Nat) :
    f.close count stop = .ok (closeBody (closeBranches count stop f.branches).2
      (closeBranches count stop f.branches).1) := by
  unfold close
  rw [h]

/-- A group always closes, with its body as the only child. -/
theorem Frame.exists_close_of_group {f : Frame} {kind : GroupKind} (h : f.opener = .group kind)
    (count stop : Nat) :
    ∃ node count', f.close count stop = .ok (node, count') ∧ node.label = .group kind ∧
      node.children = [(closeBody (closeBranches count stop f.branches).2
        (closeBranches count stop f.branches).1).1] := by
  unfold close
  rw [h]
  exact ⟨_, _, rfl, rfl, rfl⟩

theorem Numbered.close {f : Frame} {others : List Node} {count count' stop : Nat} {node : Node}
    (h : Numbered (f.nodes ++ others) count) (hclose : f.close count stop = .ok (node, count')) :
    Numbered (node :: others) count' := by
  have hbranches := h.closeBranches stop
  cases Frame.closed_of_close hclose with
  | root => exact hbranches.closeBody
  | conditional => exact Numbered.build _ hbranches _ _ _
  | lookaround | group => exact Numbered.build [_] hbranches.closeBody _ _ _

/-! ## Section 3: Reading -/

namespace ParserState

/-- All nodes in the open frames. -/
def nodes (s : ParserState) : List Node :=
  s.frame.nodes ++ s.outer.flatMap Frame.nodes

/-- The nodes of a state are numbered up to its count. -/
def IsNumbered (s : ParserState) : Prop :=
  Numbered s.nodes s.count

theorem isNumbered_initial (text : Text) : (initial text).IsNumbered :=
  ⟨List.Perm.refl _, fun _ hn => absurd hn List.not_mem_nil⟩

theorem isNumbered_addLeaf {s : ParserState} (h : s.IsNumbered) (leaf : Escape.Leaf) :
    (s.addLeaf leaf).IsNumbered := by
  have hbuild : Numbered (_ :: s.nodes) (s.count + 1) :=
    Numbered.build [] h leaf.label leaf.start leaf.stop
  refine hbuild.of_perm ?_
  simp only [nodes, addLeaf, Frame.nodes_push, List.append_assoc]
  exact List.perm_middle

theorem isNumbered_foldl_addLeaf {s : ParserState} (h : s.IsNumbered)
    (leaves : List Escape.Leaf) : (leaves.foldl addLeaf s).IsNumbered := by
  induction leaves generalizing s with
  | nil => exact h
  | cons leaf rest ih => exact ih (isNumbered_addLeaf h leaf)

/-- Opening a frame adds no node. -/
theorem IsNumbered.enter {s : ParserState} (h : s.IsNumbered) (opener : Opener) (start : Nat)
    (modes : Modes) (cur : Cursor) : (s.enter opener start modes cur).IsNumbered := by
  have hnodes : (s.enter opener start modes cur).nodes = s.nodes := by
    simp [nodes, ParserState.enter]
  unfold IsNumbered
  rw [hnodes]
  exact h

/-- Every move keeps the numbering. -/
theorem IsNumbered.move {s s' : ParserState} (h : s.IsNumbered) (hmove : Move s s') :
    s'.IsNumbered := by
  cases hmove with
  | skip => exact h
  | plain => exact isNumbered_foldl_addLeaf h _
  | flags => exact isNumbered_addLeaf h _
  | backreference => exact isNumbered_addLeaf h _
  | recursion => exact isNumbered_addLeaf h _
  | whole => exact isNumbered_addLeaf h _
  | enter => exact IsNumbered.enter h _ _ _ _
  | @enterCapturing start cur => exact IsNumbered.enter h _ start _ cur
  | @enterNamed name spelling start cur => exact IsNumbered.enter h _ start _ cur
  | @enterConditional condition cur => exact IsNumbered.enter h _ _ _ cur
  | nextBranch =>
    have hnodes : s.frame.nextBranch.nodes = s.frame.nodes := Frame.nodes_nextBranch s.frame
    unfold IsNumbered nodes at h ⊢
    simpa only [moveTo, hnodes] using h
  | @close frame outer node count cur hcur houter hclose =>
    have hthis : Numbered (s.frame.nodes ++ (frame :: outer).flatMap Frame.nodes) s.count :=
      houter ▸ h
    refine (hthis.close hclose).of_perm ?_
    simp only [nodes, Frame.nodes_push, List.flatMap_cons, List.append_assoc]
    exact List.perm_middle
  | @quantify bounds mode item items cur hcur hbounds hfirst hitems hitem =>
    -- the item leaves the branch and comes back below the quantifier
    have hthis : Numbered ([item] ++ ({ s.frame with items := items }.nodes ++
        s.outer.flatMap Frame.nodes)) s.count := by
      refine Numbered.of_perm h ?_
      simp only [nodes, Frame.nodes_of_items hitems, List.append_assoc]
      exact List.perm_append_comm_assoc _ _ _
    refine (Numbered.build [item] hthis (.quantifier bounds mode) item.start cur.pos).of_perm ?_
    simp only [nodes, putQuantifier, Frame.nodes_of_items (f := { s.frame with
      items := .build s.count (.quantifier bounds mode) item.start cur.pos [item] :: items
      quantified := true }) rfl, List.append_assoc]
    exact List.perm_append_comm_assoc _ _ _

theorem isNumbered_of_runsTo {text : Text} {s : ParserState} (h : (initial text).RunsTo s) :
    s.IsNumbered :=
  h.invariant IsNumbered.move (isNumbered_initial text)

/-- The tree that a finished pattern closes to is numbered. -/
theorem numbered_of_finish {s : ParserState} {root : Node} (h : s.IsNumbered)
    (hfinish : s.finish = .ok root) : ∃ count, Numbered [root] count := by
  obtain ⟨houter, ⟨count, hclose⟩, -⟩ := finish_eq_ok_iff.mp hfinish
  unfold IsNumbered nodes at h
  rw [houter, List.flatMap_nil] at h
  exact ⟨count, h.close hclose⟩

end ParserState

/-- The tree of a parsed pattern is numbered. -/
theorem Pattern.numbered_of_parse {text : Text} {p : Pattern} (h : Pattern.parse text = .ok p) :
    ∃ count, Numbered [p.root] count := by
  obtain ⟨last, root, hruns, -, hfinish, rfl⟩ := Pattern.parse_eq_ok_iff.mp h
  exact ParserState.numbered_of_finish (ParserState.isNumbered_of_runsTo hruns) hfinish

end RegexInsight
