import Mathlib
import RegexInsight.Pattern.Arena

/-! # Trees of nodes

    Induction over the trees of a pattern, and the pre-order as a plain
    recursion: a node, then the pre-orders of its children.  The way down
    that a visit remembers plays no part in it. -/

namespace RegexInsight

namespace Node

/-! ## Section 1: Induction -/

/-- What holds of a node as soon as it holds of its children, holds of every
    node. -/
@[elab_as_elim]
theorem induction {P : Node → Prop}
    (node : ∀ label mark children, (∀ child ∈ children, P child) → P (.node label mark children))
    (n : Node) : P n := by
  match n with
  | .node label mark children =>
    exact node label mark children fun child hchild => induction node child
termination_by n
decreasing_by
  have hlt := List.sizeOf_lt_of_mem hchild
  simp only [Node.node.sizeOf_spec]
  omega

/-! ## Section 2: Pre-order -/

/-- The nodes visited do not depend on the way to them. -/
theorem map_node_visitsFrom (n : Node) (path : List Step) :
    (n.visitsFrom path).map Visit.node = n.preorder := by
  suffices h : ∀ path path',
      (n.visitsFrom path).map Visit.node = (n.visitsFrom path').map Visit.node from h path []
  induction n using induction with
  | node label mark children ih =>
    intro path path'
    -- the visits of some of the children, whatever stands before them
    have hof : ∀ parent before before' rest, (∀ child ∈ rest, child ∈ children) →
        (visitsOf parent path before rest).map Visit.node =
          (visitsOf parent path' before' rest).map Visit.node := by
      intro parent before before' rest
      induction rest generalizing before before' with
      | nil => intro _; rfl
      | cons child rest ihrest =>
        intro hsub
        simp only [visitsOf, List.map_append]
        rw [ih child (hsub child List.mem_cons_self) _ (⟨parent, before', rest⟩ :: path'),
          ihrest _ (child :: before') fun other hother => hsub other (List.mem_cons_of_mem _ hother)]
    simp only [visitsFrom, List.map_cons]
    rw [hof _ _ _ children fun _ hchild => hchild]

theorem preorder_node (label : Label) (mark : Mark) (children : List Node) :
    (node label mark children).preorder =
      node label mark children :: children.flatMap preorder := by
  have hof : ∀ parent path before rest,
      (visitsOf parent path before rest).map Visit.node = rest.flatMap preorder := by
    intro parent path before rest
    induction rest generalizing before with
    | nil => rfl
    | cons child rest ih =>
      simp only [visitsOf, List.map_append, List.flatMap_cons]
      rw [map_node_visitsFrom, ih]
  simp only [preorder, visits, visitsFrom, List.map_cons]
  rw [hof]

theorem mem_preorder_self (n : Node) : n ∈ n.preorder := by
  obtain ⟨label, mark, children⟩ := n
  rw [preorder_node]
  exact List.mem_cons_self

/-- Below a node stand the nodes below its children. -/
theorem mem_preorder_of_child {n child m : Node} (hchild : child ∈ n.children)
    (hm : m ∈ child.preorder) : m ∈ n.preorder := by
  obtain ⟨label, mark, children⟩ := n
  rw [preorder_node]
  exact List.mem_cons_of_mem _ (List.mem_flatMap.mpr ⟨child, hchild, hm⟩)

theorem child_mem_preorder {n child : Node} (hchild : child ∈ n.children) :
    child ∈ n.preorder :=
  mem_preorder_of_child hchild (mem_preorder_self child)

/-- The pre-order below a node is part of that of the whole tree. -/
theorem preorder_sublist {n m : Node} (hm : m ∈ n.preorder) : m.preorder.Sublist n.preorder := by
  induction n using induction with
  | node label mark children ih =>
    rw [preorder_node] at hm ⊢
    rcases List.mem_cons.mp hm with rfl | hbelow
    · rw [preorder_node]
    · obtain ⟨child, hchild, hm⟩ := List.mem_flatMap.mp hbelow
      have hpart : child.preorder.Sublist (children.flatMap preorder) :=
        List.sublist_flatten_of_mem (List.mem_map_of_mem hchild)
      exact ((ih child hchild hm).trans hpart).cons _

/-- Standing below is transitive. -/
theorem mem_preorder_trans {a b c : Node} (hab : b ∈ a.preorder) (hbc : c ∈ b.preorder) :
    c ∈ a.preorder :=
  (preorder_sublist hab).subset hbc

/-! ## Section 3: Numbers -/

/-- The numbers of a node and of everything below it, in pattern order. -/
def indices (n : Node) : List Nat :=
  n.preorder.map index

theorem indices_node (label : Label) (mark : Mark) (children : List Node) :
    (node label mark children).indices = mark.index :: children.flatMap indices := by
  simp only [indices, preorder_node, List.map_cons, List.map_flatMap]
  rfl

@[simp] theorem indices_build (count : Nat) (label : Label) (start stop : Nat)
    (children : List Node) :
    (build count label start stop children).indices = count :: children.flatMap indices :=
  indices_node label _ children

/-- The numbers grow from the children to their parent, at every node. -/
def Ascending (n : Node) : Prop :=
  ∀ m ∈ n.preorder, ∀ child ∈ m.children, child.index < m.index

theorem ascending_node {label : Label} {mark : Mark} {children : List Node}
    (hhere : ∀ child ∈ children, child.index < mark.index)
    (hbelow : ∀ child ∈ children, child.Ascending) :
    (node label mark children).Ascending := by
  intro m hm
  rw [preorder_node] at hm
  rcases List.mem_cons.mp hm with rfl | hm
  · exact hhere
  · obtain ⟨child, hchild, hm⟩ := List.mem_flatMap.mp hm
    exact hbelow child hchild m hm

theorem Ascending.of_mem {n m : Node} (h : n.Ascending) (hm : m ∈ n.preorder) : m.Ascending :=
  fun k hk => h k (mem_preorder_trans hm hk)

theorem index_mem_indices (n : Node) : n.index ∈ n.indices :=
  List.mem_map.mpr ⟨n, mem_preorder_self n, rfl⟩

end Node

end RegexInsight
