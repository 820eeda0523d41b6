import Mathlib
import RegexInsight.Proofs.Pattern.ArenaTree
import RegexInsight.Proofs.Pattern.Reference

/-! # Literals in order

    The nodes of a pattern are numbered in the order in which they are
    completed, and a group is complete only behind all that it contains.
    A literal is complete as soon as it is read.  So the literals stand in
    the arena as they stand in the text, and what they spell can be followed
    while the pattern is read. -/

namespace RegexInsight

/-! ## Section 1: Literals of a tree -/

/-- The character of a literal. -/
def Label.literal? : Label → Option CodePoint
  | literal c _ => some c
  | _ => none

theorem Label.literal?_eq_some_iff {label : Label} {c : CodePoint} :
    label.literal? = some c ↔ ∃ accepts, label = .literal c accepts := by
  cases label <;> simp [literal?]

/-- Whether a node is a literal. -/
def Node.isLiteral (n : Node) : Bool :=
  n.label.literal?.isSome

theorem Label.isImplicit_of_literal? {label : Label} (h : label.literal?.isSome = true) :
    label.isImplicit = false := by
  cases label <;> first | rfl | cases h

/-- The literals of a tree, in pattern order. -/
def Node.literals (n : Node) : List Node :=
  n.preorder.filter isLiteral

theorem Node.literals_eq_filter_explicit (n : Node) : n.literals = n.explicit.filter isLiteral := by
  rw [literals, explicit, List.filter_filter]
  refine List.filter_congr fun m _ => ?_
  cases hliteral : m.isLiteral with
  | false => rfl
  | true => rw [Label.isImplicit_of_literal? hliteral]; rfl

/-- What the literals of a pattern spell, in the order of the arena. -/
def Pattern.spelled (p : Pattern) : List CodePoint :=
  p.arena.entries.toList.filterMap fun entry => entry.label.literal?

/-! ## Section 2: Literals read so far -/

/-- The literals read into a frame. -/
def Frame.literals (f : Frame) : List Node :=
  f.explicit.filter Node.isLiteral

namespace ParserState

variable {s s' : ParserState}

/-- The literals read so far, in pattern order. -/
def literals (s : ParserState) : List Node :=
  s.outer.reverse.flatMap Frame.literals ++ s.frame.literals

theorem literals_addLeaf (leaf : Escape.Leaf) (hleaf : leaf.label.isImplicit = false) :
    (s.addLeaf leaf).literals =
      s.literals ++ [.build s.count leaf.label leaf.start leaf.stop []].filter Node.isLiteral := by
  simp [literals, addLeaf, Frame.literals, Node.explicit_build hleaf]

theorem literals_enter {opener : Opener} {start : Nat} {modes : Modes} {cur : Cursor} :
    (s.enter opener start modes cur).literals = s.literals := by
  simp [literals, enter, Frame.literals]

/-- Closing a frame completes no literal. -/
theorem literals_close {frame : Frame} {outer : List Frame} {node : Node} {count count' stop : Nat}
    {cur : Cursor} (houter : s.outer = frame :: outer)
    (hclose : s.frame.close count stop = .ok (node, count')) :
    ({ s with
      cur := cur, frame := frame.push node, outer := outer, count := count' } : ParserState).literals =
      s.literals := by
  have hnode : node.explicit.filter Node.isLiteral = s.frame.literals := by
    rcases Frame.explicit_close hclose with ⟨-, hsame⟩ | ⟨hlabel, hsame⟩
    · rw [hsame]
      rfl
    · have hgroup : node.isLiteral = false := by
        unfold Node.isLiteral
        rcases Opener.cases_of_label? hlabel with ⟨_, -, h⟩ | ⟨_, _, -, h⟩ | ⟨_, -, h⟩ <;>
          rw [h] <;> rfl
      rw [hsame, List.filter_cons_of_neg (by simp [hgroup])]
      rfl
  simp [literals, houter, Frame.literals, hnode]

theorem literals_putQuantifier {bounds : Bounds} {mode : QuantifierMode} {item : Node}
    {items : List Node} {cur : Cursor} (hitems : s.frame.items = item :: items) :
    (s.putQuantifier bounds mode item items cur).literals = s.literals := by
  have hframe : (s.putQuantifier bounds mode item items cur).frame.explicit =
      { s.frame with items := items }.explicit ++
        .build s.count (.quantifier bounds mode) item.start cur.pos [item] :: item.explicit := by
    rw [Frame.explicit_of_items rfl, Node.explicit_build rfl, List.flatMap_singleton]
    rfl
  simp only [literals, Frame.literals, hframe, Frame.explicit_of_items hitems, List.filter_append]
  rfl

/-! ## Section 3: Ascending numbers -/

/-- The literals read so far are numbered in pattern order. -/
structure Ascends (s : ParserState) : Prop where
  numbered : s.IsNumbered
  sorted : (s.literals.map Node.index).Pairwise (· < ·)

namespace Ascends

theorem initial (text : Text) : (ParserState.initial text).Ascends :=
  ⟨isNumbered_initial text, .nil⟩

theorem moveTo (h : s.Ascends) {cur : Cursor} : (s.moveTo cur).Ascends :=
  ⟨h.numbered, h.sorted⟩

theorem refer (h : s.Ascends) (target : Text) (position : Nat) :
    (s.refer target position).Ascends :=
  ⟨h.numbered, h.sorted⟩

theorem setModes (h : s.Ascends) (modes : Modes) :
    ({ s with frame := { s.frame with modes := modes } } : ParserState).Ascends :=
  ⟨h.numbered, h.sorted⟩

theorem index_lt (h : s.Ascends) {n : Node} (hn : n ∈ s.literals) : n.index < s.count := by
  -- the numbers of all nodes together are those below the count
  have hmem : ∃ m ∈ s.nodes, n ∈ m.preorder := by
    simp only [literals, Frame.literals, Frame.explicit, Node.explicit, List.mem_append,
      List.mem_flatMap, List.mem_reverse, List.mem_filter] at hn
    simp only [nodes, List.mem_append, List.mem_flatMap]
    grind
  obtain ⟨m, hm, hn⟩ := hmem
  have hrange := h.numbered.perm.mem_iff.mp
    (List.mem_flatMap.mpr ⟨m, hm, List.mem_map.mpr ⟨n, hn, rfl⟩⟩)
  exact List.mem_range.mp hrange

/-- A leaf gets a number above those of all literals before it. -/
theorem addLeaf (h : s.Ascends) {leaf : Escape.Leaf} (hleaf : leaf.label.isImplicit = false) :
    (s.addLeaf leaf).Ascends where
  numbered := isNumbered_addLeaf h.numbered leaf
  sorted := by
    rw [literals_addLeaf leaf hleaf, List.map_append, List.pairwise_append]
    refine ⟨h.sorted, ?_, fun i hi j hj => ?_⟩
    · exact (List.pairwise_singleton _ _).sublist (List.filter_sublist.map _)
    · obtain ⟨n, hn, rfl⟩ := List.mem_map.mp hi
      obtain ⟨m, hm, rfl⟩ := List.mem_map.mp hj
      obtain rfl := List.mem_singleton.mp (List.mem_of_mem_filter hm)
      exact h.index_lt hn

theorem foldl_addLeaf (h : s.Ascends) {leaves : List Escape.Leaf}
    (hleaves : ∀ leaf ∈ leaves, leaf.label.isImplicit = false) :
    (leaves.foldl ParserState.addLeaf s).Ascends := by
  induction leaves generalizing s with
  | nil => exact h
  | cons leaf rest ih =>
    obtain ⟨hleaf, hrest⟩ := List.forall_mem_cons.mp hleaves
    exact ih (h.addLeaf hleaf) hrest

theorem move (h : s.Ascends) (hmove : Move s s') : s'.Ascends := by
  -- the moves that complete no literal
  have hkept : s'.literals = s.literals → s'.Ascends := fun hsame =>
    ⟨h.numbered.move hmove, hsame ▸ h.sorted⟩
  cases hmove with
  | skip => exact hkept rfl
  | plain _ hleaves =>
    exact moveTo (h.foldl_addLeaf fun leaf hleaf =>
      Label.isImplicit_of_isPlain (hleaves leaf hleaf))
  | flags => exact moveTo (addLeaf (h.setModes _) rfl)
  | backreference => exact moveTo (addLeaf (h.refer _ _) rfl)
  | recursion => exact moveTo (addLeaf (h.refer _ _) rfl)
  | whole => exact moveTo (addLeaf h rfl)
  | enter => exact hkept literals_enter
  | enterCapturing => exact hkept literals_enter
  | enterNamed => exact hkept literals_enter
  | enterConditional => exact hkept literals_enter
  | nextBranch => exact hkept (by simp [literals, ParserState.moveTo, Frame.literals])
  | close _ houter hclose => exact hkept (literals_close houter hclose)
  | quantify _ _ _ hitems => exact hkept (literals_putQuantifier hitems)

theorem of_runsTo {text : Text} (h : (ParserState.initial text).RunsTo s) : s.Ascends :=
  h.invariant move (initial text)

end Ascends

theorem literals_of_finish {root : Node} (h : s.IsNormal) (hfinish : s.finish = .ok root) :
    root.literals = s.literals := by
  obtain ⟨houter, -, -⟩ := finish_eq_ok_iff.mp hfinish
  rw [Node.literals_eq_filter_explicit, h.explicit_finish hfinish, literals, explicit, houter]
  simp [Frame.literals]

end ParserState

/-! ## Section 4: The arena -/

/-- In the order of their completion, the literals of a pattern stand as they
    do in its text. -/
theorem Pattern.filter_completed {text : Text} {p : Pattern} (h : Pattern.parse text = .ok p) :
    p.root.completed.filter Node.isLiteral = p.root.literals := by
  obtain ⟨count, hnumbered⟩ := Pattern.numbered_of_parse h
  obtain ⟨last, root, hruns, -, hfinish, rfl⟩ := Pattern.parse_eq_ok_iff.mp h
  have hsorted : (root.literals.map Node.index).Pairwise (· < ·) := by
    rw [ParserState.literals_of_finish (.of_runsTo hruns) hfinish]
    exact (ParserState.Ascends.of_runsTo hruns).sorted
  have hcompleted : (root.completed.map Node.index).Pairwise (· < ·) :=
    hnumbered.map_index_completed ▸ List.pairwise_lt_range
  have hperm : (root.completed.filter Node.isLiteral).Perm root.literals :=
    (List.mergeSort_perm root.preorder _).filter _
  refine List.Perm.eq_of_pairwise (fun a b _ _ (hab : a.index < b.index) hba =>
    absurd hba hab.not_gt) ?_ (List.pairwise_map.mp hsorted) hperm
  exact (List.pairwise_map.mp hcompleted).sublist List.filter_sublist

theorem Pattern.spelled_eq {text : Text} {p : Pattern} (h : Pattern.parse text = .ok p) :
    p.spelled = p.root.literals.filterMap fun n => n.label.literal? := by
  rw [← filter_completed h, List.filterMap_filter, spelled, arena, Arena.ofNode,
    List.filterMap_map]
  refine List.filterMap_congr fun n _ => ?_
  show n.label.literal? = if n.isLiteral then n.label.literal? else none
  unfold Node.isLiteral
  cases n.label.literal? <;> rfl

end RegexInsight
