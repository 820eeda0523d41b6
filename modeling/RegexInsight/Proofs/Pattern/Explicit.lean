import Mathlib
import RegexInsight.Proofs.Pattern.Numbering

/-! # Explicit nodes

    Closing a branch or a body may put a node around its items for which
    nothing is written: an empty branch, a concatenation, an alternation.
    All other nodes are explicit.  A frame closes into a node whose explicit
    nodes are those of its items, in the same order, below the node that
    its opener asked for; the root asks for none.  While a pattern is read,
    every move keeps the explicit nodes there are, and each that it adds
    arises in one of a few ways. -/

namespace RegexInsight

/-! ## Section 1: Explicit nodes of a tree -/

/-- Nothing is written for the node itself. -/
def Label.isImplicit : Label → Bool
  | empty => true
  | concat => true
  | alternation => true
  | _ => false

namespace Node

/-- The explicit nodes of a tree, in pattern order. -/
def explicit (n : Node) : List Node :=
  n.preorder.filter fun m => !m.label.isImplicit

theorem mem_explicit {n m : Node} :
    m ∈ n.explicit ↔ m ∈ n.preorder ∧ m.label.isImplicit = false := by
  simp [explicit]

@[simp] theorem label_build (count : Nat) (label : Label) (start stop : Nat)
    (children : List Node) : (build count label start stop children).label = label := rfl

theorem preorder_build (count : Nat) (label : Label) (start stop : Nat) (children : List Node) :
    (build count label start stop children).preorder =
      build count label start stop children :: children.flatMap preorder :=
  preorder_node label _ children

theorem explicit_build {count : Nat} {label : Label} {start stop : Nat} {children : List Node}
    (h : label.isImplicit = false) :
    (build count label start stop children).explicit =
      build count label start stop children :: children.flatMap explicit := by
  rw [explicit, preorder_build, List.filter_cons_of_pos (by simp [h]), List.filter_flatMap]
  rfl

theorem explicit_build_implicit {count : Nat} {label : Label} {start stop : Nat}
    {children : List Node} (h : label.isImplicit = true) :
    (build count label start stop children).explicit = children.flatMap explicit := by
  rw [explicit, preorder_build, List.filter_cons_of_neg (by simp [h]), List.filter_flatMap]
  rfl

end Node

/-! ## Section 2: Closing -/

section Closing

variable (count stop : Nat)

theorem explicit_closeBranch (items : List Node) :
    (closeBranch count stop items).1.explicit = items.flatMap Node.explicit := by
  match items with
  | [] => exact Node.explicit_build_implicit rfl
  | [only] => simp [closeBranch]
  | first :: second :: rest => exact Node.explicit_build_implicit rfl

theorem explicit_closeBranches (branches : List (List Node)) :
    (closeBranches count stop branches).1.flatMap Node.explicit =
      branches.flatten.flatMap Node.explicit := by
  induction branches generalizing count with
  | nil => rfl
  | cons items rest ih =>
    simp only [closeBranches, List.flatMap_cons, List.flatten_cons, List.flatMap_append,
      explicit_closeBranch, ih]

theorem explicit_closeBody (bodies : List Node) :
    (closeBody count bodies).1.explicit = bodies.flatMap Node.explicit := by
  match bodies with
  | [] => exact Node.explicit_build_implicit rfl
  | [only] => simp [closeBody]
  | first :: second :: rest => exact Node.explicit_build_implicit rfl

end Closing

/-- The label of the node that an opener asks for. -/
def Opener.label? : Opener → Option Label
  | root => none
  | group kind => some (.group kind)
  | lookaround direction negated => some (.lookaround direction negated)
  | conditional condition => some (.conditional condition)

/-- An opener asks for a group, a lookaround or a conditional, as it is one
    itself. -/
theorem Opener.cases_of_label? {opener : Opener} {label : Label} (h : opener.label? = some label) :
    (∃ kind, opener = .group kind ∧ label = .group kind) ∨
      (∃ direction negated, opener = .lookaround direction negated ∧
        label = .lookaround direction negated) ∨
      ∃ condition, opener = .conditional condition ∧ label = .conditional condition := by
  cases opener with
  | root => nomatch h
  | group kind => exact .inl ⟨kind, rfl, (Option.some.inj h).symm⟩
  | lookaround direction negated =>
    exact .inr (.inl ⟨direction, negated, rfl, (Option.some.inj h).symm⟩)
  | conditional condition => exact .inr (.inr ⟨condition, rfl, (Option.some.inj h).symm⟩)

namespace Frame

/-- The explicit nodes read in a frame so far. -/
def explicit (f : Frame) : List Node :=
  f.nodes.flatMap Node.explicit

@[simp] theorem explicit_opened (opener : Opener) (start : Nat) (modes : Modes) :
    (opened opener start modes).explicit = [] := rfl

@[simp] theorem explicit_push (f : Frame) (n : Node) :
    (f.push n).explicit = f.explicit ++ n.explicit := by
  simp [explicit]

@[simp] theorem explicit_nextBranch (f : Frame) : f.nextBranch.explicit = f.explicit := by
  simp [explicit]

theorem explicit_of_items {f : Frame} {item : Node} {items : List Node}
    (h : f.items = item :: items) :
    f.explicit = { f with items := items }.explicit ++ item.explicit := by
  simp [explicit, nodes_of_items h]

/-- What a frame closes into: the root has the explicit nodes of its items,
    and any other frame puts the node that was asked for above them. -/
theorem explicit_close {f : Frame} {count stop count' : Nat} {node : Node}
    (h : f.close count stop = .ok (node, count')) :
    (f.opener = .root ∧ node.explicit = f.explicit) ∨
      (f.opener.label? = some node.label ∧ node.explicit = node :: f.explicit) := by
  have hbranches : (closeBranches count stop f.branches).1.flatMap Node.explicit = f.explicit :=
    explicit_closeBranches count stop f.branches
  have hbody : ∀ after : Nat,
      (closeBody after (closeBranches count stop f.branches).1).1.explicit = f.explicit :=
    fun after => (explicit_closeBody after _).trans hbranches
  cases closed_of_close h with
  | root hopener => exact .inl ⟨hopener, hbody _⟩
  | conditional hopener =>
    refine .inr ⟨by rw [hopener]; rfl, ?_⟩
    rw [Node.explicit_build rfl, hbranches]
  | lookaround hopener | group hopener =>
    refine .inr ⟨by rw [hopener]; rfl, ?_⟩
    rw [Node.explicit_build rfl, List.flatMap_singleton, hbody]

end Frame

/-! ## Section 3: Reading -/

namespace ParserState

/-- The explicit nodes read so far, those of the innermost frame first. -/
def explicit (s : ParserState) : List Node :=
  s.frame.explicit ++ s.outer.flatMap Frame.explicit

/-- How an explicit node comes about in a move from `s` to `s'`. -/
inductive Arises (s s' : ParserState) (n : Node) : Prop where
  | plain {modes : Modes} (hlabel : n.label.IsPlain modes)
  | flags {text : Text} (hlabel : n.label = .flags text)
  /-- A reference is remembered as it stands in the node. -/
  | backreference {target : Text} (hlabel : n.label = .backreference target)
      (hstart : n.start = s.cur.pos)
      (hreferences : s'.references = ⟨target, s.cur.pos⟩ :: s.references)
  /-- A call is remembered in absolute form. -/
  | recursion {written target : Text} (hlabel : n.label = .recursion written)
      (hstart : n.start = s.cur.pos)
      (htarget : Escape.absoluteReference s.cur.pos s.groups written = .ok target)
      (hreferences : s'.references = ⟨target, s.cur.pos⟩ :: s.references)
  | whole {written call : Text} (hlabel : n.label = .recursion written)
      (hstart : n.start = s.cur.pos) (hstop : n.stop = s'.cur.pos) (hcall : call ∈ wholeCalls)
      (hrest : s.cur.rest = call ++ s'.cur.rest)
  | closed (hlabel : s.frame.opener.label? = some n.label)
  | quantifier {bounds : Bounds} {mode : QuantifierMode} {after : Cursor}
      (hlabel : n.label = .quantifier bounds mode)
      (hread : Bounds.read? s.cur = .ok (some (bounds, after)))

variable {s s' : ParserState} {n : Node}

theorem mem_explicit_addLeaf {leaf : Escape.Leaf} (hleaf : leaf.label.isImplicit = false) :
    n ∈ (s.addLeaf leaf).explicit ↔
      n ∈ s.explicit ∨ n = .build s.count leaf.label leaf.start leaf.stop [] := by
  simp only [explicit, addLeaf, Frame.explicit_push, Node.explicit_build hleaf, List.flatMap_nil,
    List.mem_append, List.mem_singleton]
  tauto

theorem Label.isImplicit_of_isPlain {modes : Modes} {label : Label} (h : label.IsPlain modes) :
    label.isImplicit = false := by
  cases h <;> rfl

/-- Leaves that refer to nothing. -/
theorem exists_explicit_foldl_addLeaf {modes : Modes} {leaves : List Escape.Leaf}
    (h : ∀ leaf ∈ leaves, leaf.label.IsPlain modes) :
    ∃ new : List Node, (∀ n, n ∈ (leaves.foldl addLeaf s).explicit ↔ n ∈ s.explicit ∨ n ∈ new) ∧
      ∀ n ∈ new, n.label.IsPlain modes := by
  induction leaves generalizing s with
  | nil => exact ⟨[], by simp, nofun⟩
  | cons leaf rest ih =>
    have hplain := h leaf List.mem_cons_self
    obtain ⟨new, hnew, hlabels⟩ := ih (s := s.addLeaf leaf) fun other hother =>
      h other (List.mem_cons_of_mem _ hother)
    refine ⟨.build s.count leaf.label leaf.start leaf.stop [] :: new, fun n => ?_,
      List.forall_mem_cons.mpr ⟨hplain, hlabels⟩⟩
    rw [List.foldl_cons, hnew, mem_explicit_addLeaf (Label.isImplicit_of_isPlain hplain),
      List.mem_cons, or_assoc]

/-- A quantifier comes above its item. -/
theorem mem_explicit_putQuantifier {bounds : Bounds} {mode : QuantifierMode} {item : Node}
    {items : List Node} {cur : Cursor} (hitems : s.frame.items = item :: items) :
    n ∈ (s.putQuantifier bounds mode item items cur).explicit ↔
      n ∈ s.explicit ∨ n = .build s.count (.quantifier bounds mode) item.start cur.pos [item] := by
  have hbefore : s.frame.explicit = { s.frame with items := items }.explicit ++ item.explicit :=
    Frame.explicit_of_items hitems
  have hafter : (s.putQuantifier bounds mode item items cur).frame.explicit =
      { s.frame with items := items }.explicit ++
        (Node.build s.count (.quantifier bounds mode) item.start cur.pos [item]).explicit :=
    Frame.explicit_of_items rfl
  rw [Node.explicit_build rfl, List.flatMap_singleton] at hafter
  have houter : (s.putQuantifier bounds mode item items cur).outer = s.outer := rfl
  rw [explicit, explicit, hafter, hbefore, houter]
  simp only [List.mem_append, List.mem_cons]
  grind

/-- One leaf, whatever it changes besides. -/
theorem exists_explicit_addLeaf {t : ParserState} {leaf : Escape.Leaf} {cur : Cursor}
    (hleaf : leaf.label.isImplicit = false) (hsame : t.explicit = s.explicit)
    (harises : Arises s ((t.addLeaf leaf).moveTo cur)
      (.build t.count leaf.label leaf.start leaf.stop [])) :
    ∃ new : List Node,
      (∀ n, n ∈ ((t.addLeaf leaf).moveTo cur).explicit ↔ n ∈ s.explicit ∨ n ∈ new) ∧
      ∀ n ∈ new, Arises s ((t.addLeaf leaf).moveTo cur) n := by
  refine ⟨[.build t.count leaf.label leaf.start leaf.stop []], fun n => ?_, fun n hn => ?_⟩
  · rw [List.mem_singleton, ← hsame]
    exact mem_explicit_addLeaf hleaf
  · exact List.mem_singleton.mp hn ▸ harises

/-- A move keeps the explicit nodes, and new ones come about as it says. -/
theorem Move.exists_explicit (h : Move s s') :
    ∃ new : List Node, (∀ n, n ∈ s'.explicit ↔ n ∈ s.explicit ∨ n ∈ new) ∧
      ∀ n ∈ new, Arises s s' n := by
  cases h with
  | skip => exact ⟨[], by simp [explicit, moveTo], nofun⟩
  | plain _ hleaves =>
    obtain ⟨new, hnew, hlabels⟩ := exists_explicit_foldl_addLeaf (s := s) hleaves
    exact ⟨new, hnew, fun n hn => .plain (hlabels n hn)⟩
  | flags => exact exists_explicit_addLeaf rfl rfl (.flags rfl)
  | backreference => exact exists_explicit_addLeaf rfl rfl (.backreference rfl rfl rfl)
  | recursion _ htarget => exact exists_explicit_addLeaf rfl rfl (.recursion rfl rfl htarget rfl)
  | whole _ hcall hrest => exact exists_explicit_addLeaf rfl rfl (.whole rfl rfl rfl hcall hrest)
  | enter => exact ⟨[], by simp [explicit, ParserState.enter], nofun⟩
  | enterCapturing =>
    exact ⟨[], by simp [explicit, ParserState.enterCapturing, ParserState.enter], nofun⟩
  | enterNamed => exact ⟨[], by simp [explicit, ParserState.enter], nofun⟩
  | enterConditional => exact ⟨[], by simp [explicit, ParserState.enter, refer], nofun⟩
  | nextBranch => exact ⟨[], by simp [explicit, moveTo], nofun⟩
  | @close frame outer node count cur hcur houter hclose =>
    -- only a group or an assertion becomes a node of its own
    rcases Frame.explicit_close hclose with ⟨-, hnode⟩ | ⟨hlabel, hnode⟩
    · refine ⟨[], fun n => ?_, nofun⟩
      simp only [explicit, houter, Frame.explicit_push, hnode, List.flatMap_cons, List.mem_append]
      grind
    · refine ⟨[node], fun n => ?_, fun n hn => .closed (List.mem_singleton.mp hn ▸ hlabel)⟩
      simp only [explicit, houter, Frame.explicit_push, hnode, List.flatMap_cons, List.mem_append]
      grind
  | @quantify bounds mode item items cur hcur hbounds hfirst hitems hitem hread =>
    obtain ⟨after, hread, -⟩ := hread
    refine ⟨[.build s.count (.quantifier bounds mode) item.start cur.pos [item]], fun n => ?_,
      fun n hn => ?_⟩
    · rw [List.mem_singleton]
      exact mem_explicit_putQuantifier hitems
    · obtain rfl := List.mem_singleton.mp hn
      exact .quantifier rfl hread

end ParserState

end RegexInsight
