import Mathlib
import RegexInsight.Proofs.Pattern.ArenaTree
import RegexInsight.Proofs.Pattern.NormalForm

/-! # The arena in normal form

    What the normal form of a tree means for its table: the kind of a node
    settles how many children it lists, and of which kinds they are.
    `NodeKind.Allows` says this for every kind, without the labels and the
    reaches of the tree. -/

namespace RegexInsight

/-! ## Section 1: Kinds below a kind -/

namespace NodeKind

/-- The kinds that can stand beside others in a concatenation. -/
def isItem : NodeKind → Bool
  | empty | concat | alternation => false
  | _ => true

/-- The kinds that can stand below a quantifier. -/
def isOperand : NodeKind → Bool
  | literal | charClass | any | group | lookaround => true
  | backreference | recursion | conditional => true
  | _ => false

/-- The kinds of the children that a node of a kind can have. -/
def Allows : NodeKind → List NodeKind → Prop
  | quantifier, below => ∃ operand, below = [operand] ∧ operand.isOperand = true
  | concat, below => 2 ≤ below.length ∧ ∀ kind ∈ below, kind.isItem = true
  | alternation, below => 2 ≤ below.length ∧ alternation ∉ below
  | group, below => below.length = 1
  | lookaround, below => below.length = 1
  | conditional, below => (below.length = 1 ∨ below.length = 2) ∧ alternation ∉ below
  | _, below => below = []

end NodeKind

namespace Label

theorem isItem_kind (label : Label) : label.kind.isItem = label.isItem := by
  cases label <;> rfl

theorem isOperand_kind (label : Label) : label.kind.isOperand = label.isOperand := by
  cases label <;> rfl

/-- Only alternations have the kind of one. -/
theorem kind_ne_alternation {label : Label} (h : label ≠ .alternation) :
    label.kind ≠ .alternation := by
  cases label with
  | alternation => exact absurd rfl h
  | _ => exact nofun

/-- No branch is an alternation, and neither is its kind. -/
theorem not_mem_map_kind {branches : List Label} (h : ∀ branch ∈ branches, branch ≠ .alternation) :
    NodeKind.alternation ∉ branches.map kind := by
  intro hmem
  obtain ⟨branch, hbranch, hkind⟩ := List.mem_map.mp hmem
  exact kind_ne_alternation (h branch hbranch) hkind

theorem IsLeaf.allows {label : Label} (h : label.IsLeaf) : label.kind.Allows [] := by
  cases h with
  | plain hplain => cases hplain <;> rfl
  | _ => rfl

/-- Labels that suit a label are of kinds that its kind allows. -/
theorem Suits.allows {label : Label} {below : List Label} (h : label.Suits below) :
    label.kind.Allows (below.map kind) := by
  cases h with
  | leaf hleaf => exact hleaf.allows
  | group => exact List.length_map kind
  | lookaround => exact List.length_map kind
  | @quantifier _ _ operand _ hoperand =>
    exact ⟨operand.kind, rfl, (isOperand_kind operand).trans hoperand⟩
  | concat hlength hitems =>
    refine ⟨(List.length_map kind).symm ▸ hlength, List.forall_mem_map.mpr fun item hitem => ?_⟩
    exact (isItem_kind item).trans (hitems item hitem)
  | alternation hlength hbranches =>
    exact ⟨(List.length_map kind).symm ▸ hlength, not_mem_map_kind hbranches⟩
  | conditional _ hsome hlength hbranches =>
    refine ⟨?_, not_mem_map_kind hbranches⟩
    have hpos := List.length_pos_of_ne_nil hsome
    rw [List.length_map]
    omega

end Label

/-! ## Section 2: The table -/

namespace Arena

/-- The kind of a node; none for a number that is not in the table. -/
def kind? (a : Arena) (i : Nat) : Option NodeKind :=
  a.entries[i]?.map fun entry => entry.label.kind

/-- Every node of the table lists children of the kinds that its own kind
    allows, and the bounds of a quantifier are in order. -/
def IsNormal (a : Arena) : Prop :=
  ∀ i < a.size, ∃ entry below, a.entries[i]? = some entry ∧
    entry.children.map a.kind? = below.map some ∧ entry.label.kind.Allows below ∧
    ∀ bounds mode, entry.label = .quantifier bounds mode →
      ∀ high, bounds.max = some high → bounds.min ≤ high

end Arena

namespace Numbered

variable {root : Node} {count : Nat} (h : Numbered [root] count)

include h

theorem kind?_index {n : Node} (hn : n ∈ root.preorder) :
    (Arena.ofNode root).kind? n.index = some n.kind := by
  rw [Arena.kind?, h.entries_getElem? hn]
  rfl

/-- The kinds of the children that a node lists. -/
theorem map_kind?_children {n : Node} (hn : n ∈ root.preorder) :
    n.entry.children.map (Arena.ofNode root).kind? = (n.children.map Node.kind).map some := by
  show (n.children.map Node.index).map _ = _
  rw [List.map_map, List.map_map]
  refine List.map_congr_left fun child hchild => ?_
  exact h.kind?_index (Node.mem_preorder_trans hn (Node.child_mem_preorder hchild))

/-- The table of a tree in normal form is in normal form. -/
theorem isNormal_ofNode (hnormal : root.IsNormal) : (Arena.ofNode root).IsNormal := by
  intro i hi
  obtain ⟨n, hn, rfl⟩ := h.exists_of_lt (h.size_ofNode ▸ hi)
  obtain ⟨hsuits, -⟩ := hnormal n hn
  refine ⟨n.entry, n.children.map Node.kind, h.entries_getElem? hn, h.map_kind?_children hn, ?_, ?_⟩
  · have hallows := hsuits.allows
    rwa [List.map_map] at hallows
  · intro bounds mode hlabel
    rw [show n.label = .quantifier bounds mode from hlabel] at hsuits
    exact hsuits.exists_operand.1

end Numbered

namespace Pattern

/-- The tree of a parsed pattern is in normal form.  A quantifier stands over
    one thing that can be repeated and has its bounds in order,
    concatenations and alternations have two members at least and are not
    nested into each other without a group, and only they, groups,
    lookarounds and conditionals have children at all. -/
theorem arena_isNormal {text : Text} {p : Pattern} (h : parse text = .ok p) : p.arena.IsNormal := by
  obtain ⟨count, hnumbered⟩ := numbered_of_parse h
  exact hnumbered.isNormal_ofNode (isNormal_of_parse h)

/-- Between two quantifiers stands the group that the second one repeats. -/
theorem arena_isNormal_of_repeated :
    ∃ p, parse "(?:a{2,3}|)*".toList = .ok p ∧ p.arena.IsNormal ∧
      ∃ entry, p.arena.entries[5]? = some entry ∧ entry.label.kind = .quantifier ∧
        entry.children.map p.arena.kind? = [some .group] := by
  have hcheck : (parse "(?:a{2,3}|)*".toList).toOption.any (fun p => p.root.index == 5 &&
      p.root.kind == .quantifier && p.root.children.map Node.kind == [.group]) = true := by
    decide +kernel
  obtain ⟨p, hp, hcheck⟩ := exists_of_check hcheck
  simp only [Bool.and_eq_true, beq_iff_eq] at hcheck
  obtain ⟨⟨hindex, hkind⟩, hchildren⟩ := hcheck
  obtain ⟨count, hnumbered⟩ := numbered_of_parse hp
  have hroot := p.root.mem_preorder_self
  refine ⟨p, hp, arena_isNormal hp, p.root.entry, ?_, hkind, ?_⟩
  · exact hindex ▸ hnumbered.entries_getElem? hroot
  · have hkinds := hnumbered.map_kind?_children hroot
    rwa [hchildren] at hkinds

end Pattern

end RegexInsight
