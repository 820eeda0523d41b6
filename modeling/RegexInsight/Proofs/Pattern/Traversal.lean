import Mathlib
import RegexInsight.Proofs.Pattern.ArenaTree
import RegexInsight.Proofs.Pattern.Way

/-! # Traversals of the arena

    Walking down keeps a stack of nodes that still have to be visited;
    going up follows a table of parents.  In the table of a numbered tree
    both show one relation.  The walk from a node is the pre-order of the
    tree below it, and what is met on the way up is read off the way that
    leads down to the node, step by step.  So a node is met on the way up
    from exactly those nodes that the walk from it comes to later. -/

namespace RegexInsight

/-! ## Section 1: Above and below -/

/-- The node `j` is `i` or is reached from `i` over children. -/
def Arena.Above (a : Arena) (i j : Nat) : Prop :=
  Relation.ReflTransGen (fun parent child => child ∈ a.children parent) i j

/-- A node comes before its children, and these in their order. -/
theorem Node.childIndices_sublist (n : Node) :
    (n.index :: n.childIndices).Sublist n.indices := by
  obtain ⟨label, mark, children⟩ := n
  rw [indices_node]
  show (mark.index :: children.map index).Sublist _
  apply List.Sublist.cons_cons
  induction children with
  | nil => exact List.Sublist.refl _
  | cons child rest ih =>
    have hfirst : [child.index].Sublist child.indices :=
      List.singleton_sublist.mpr child.index_mem_indices
    rw [List.map_cons, List.flatMap_cons]
    exact hfirst.append ih

namespace Numbered

variable {root : Node} {count : Nat} (h : Numbered [root] count)

include h

/-! ## Section 2: Walking down -/

theorem walk_eq {i : Nat} (hi : i < count) :
    (Arena.ofNode root).walk i =
      i :: ((Arena.ofNode root).children i).flatMap (Arena.ofNode root).walk := by
  obtain ⟨n, hn, rfl⟩ := h.exists_of_lt hi
  have hbelow : ∀ child ∈ n.children,
      (Arena.ofNode root).walk child.index = child.indices := by
    intro child hchild
    exact h.walk_index (Node.mem_preorder_trans hn (Node.child_mem_preorder hchild))
  rw [h.walk_index hn, h.children_index hn]
  obtain ⟨label, mark, children⟩ := n
  rw [Node.indices_node, Node.childIndices, List.flatMap_map]
  exact congrArg (mark.index :: ·) (List.flatMap_congr fun child hchild => (hbelow child hchild).symm)

theorem nodup_walk {i : Nat} (hi : i < count) : ((Arena.ofNode root).walk i).Nodup := by
  obtain ⟨n, hn, rfl⟩ := h.exists_of_lt hi
  have hall : root.indices.Nodup := h.perm_range.nodup_iff.mpr List.nodup_range
  rw [h.walk_index hn]
  exact hall.sublist ((root.preorder_sublist hn).map Node.index)

/-- A walk comes to the children of every node that it comes to, after the
    node and in their order. -/
theorem children_sublist_walk {i j : Nat} (hi : i < count)
    (hj : j ∈ (Arena.ofNode root).walk i) :
    (j :: (Arena.ofNode root).children j).Sublist ((Arena.ofNode root).walk i) := by
  obtain ⟨n, hn, rfl⟩ := h.exists_of_lt hi
  rw [h.walk_index hn] at hj ⊢
  obtain ⟨m, hm, rfl⟩ := List.mem_map.mp hj
  rw [h.children_index (Node.mem_preorder_trans hn hm)]
  exact m.childIndices_sublist.trans ((n.preorder_sublist hm).map Node.index)

/-- The table lists the child that a step enters. -/
theorem child_listed {parent child : Node} {before after : List Node}
    (hparent : parent ∈ root.preorder)
    (hchildren : parent.children = before.reverse ++ child :: after) :
    child.index ∈ (Arena.ofNode root).children parent.index := by
  rw [h.children_index hparent, Node.childIndices, hchildren]
  simp

theorem above_of_leadsTo {n m : Node} {path : List Step} (hn : n ∈ root.preorder)
    (hway : n.LeadsTo path m) : (Arena.ofNode root).Above n.index m.index := by
  induction hway with
  | here => exact .refl
  | @down path parent child before after hway hchildren ih =>
    have hparent : parent ∈ root.preorder :=
      Node.mem_preorder_trans hn (Node.mem_preorder.mpr ⟨path, hway⟩)
    exact ih.tail (h.child_listed hparent hchildren)

/-- A walk comes to the nodes at and below its start. -/
theorem mem_walk_iff {i j : Nat} (hi : i < count) :
    j ∈ (Arena.ofNode root).walk i ↔ (Arena.ofNode root).Above i j := by
  constructor
  · intro hj
    obtain ⟨n, hn, rfl⟩ := h.exists_of_lt hi
    rw [h.walk_index hn] at hj
    obtain ⟨m, hm, rfl⟩ := List.mem_map.mp hj
    obtain ⟨path, hway⟩ := Node.mem_preorder.mp hm
    exact h.above_of_leadsTo hn hway
  · intro habove
    induction habove with
    | refl =>
      rw [h.walk_eq hi]
      exact List.mem_cons_self
    | tail _ hchild ih =>
      exact (h.children_sublist_walk hi ih).subset (List.mem_cons_of_mem _ hchild)

/-- The nodes of a kind are found in the order of the walk. -/
theorem find_index {n : Node} (hn : n ∈ root.preorder) (kind : NodeKind) :
    (Arena.ofNode root).find kind n.index =
      (n.preorder.filter fun m => m.kind == kind).map Node.index := by
  rw [Arena.find, h.walk_index hn, Node.indices, List.filter_map]
  apply congrArg (List.map Node.index)
  apply List.filter_congr
  intro m hm
  have hentry := h.entries_getElem? (Node.mem_preorder_trans hn hm)
  simp only [Function.comp_apply, hentry, Option.any_some]
  rfl

/-! ## Section 3: Going up -/

/-- The way up from a node passes the nodes that the steps down to it start
    from, the last one first. -/
theorem ancestors_of_leadsTo {m : Node} {path : List Step} (hway : root.LeadsTo path m) :
    (Arena.ofNode root).ancestors m.index = path.map fun step => step.parent.index := by
  induction hway with
  | here => exact h.ancestors_root
  | @down path parent child before after hway hchildren ih =>
    have hparent : parent ∈ root.preorder := Node.mem_preorder.mpr ⟨path, hway⟩
    rw [h.ancestors_of_child (h.child_listed hparent hchildren), ih, List.map_cons]

/-- Numbers grow on the way up. -/
theorem ancestors_ascending {i : Nat} (hi : i < count) :
    (i :: (Arena.ofNode root).ancestors i).Pairwise (· < ·) := by
  by_cases hroot : i = root.index
  · rw [hroot, h.ancestors_root]
    exact List.pairwise_singleton _ _
  · obtain ⟨parent, hparent⟩ := h.exists_parent hi hroot
    have hup := h.child_lt hparent
    have hlt := h.lt_of_children hparent
    have habove := ancestors_ascending hlt
    rw [h.ancestors_of_child hparent]
    apply List.pairwise_cons.mpr
    refine ⟨?_, habove⟩
    intro j hj
    rcases List.mem_cons.mp hj with rfl | hj
    · exact hup
    · exact hup.trans ((List.pairwise_cons.mp habove).1 j hj)
termination_by count - i

theorem ancestors_lt {i j : Nat} (hi : i < count) (hj : j ∈ (Arena.ofNode root).ancestors i) :
    j < count := by
  obtain ⟨m, hm, rfl⟩ := h.exists_of_lt hi
  obtain ⟨path, hway⟩ := Node.mem_preorder.mp hm
  rw [h.ancestors_of_leadsTo hway] at hj
  obtain ⟨step, hstep, rfl⟩ := List.mem_map.mp hj
  obtain ⟨way, above, rfl⟩ := List.append_of_mem hstep
  exact h.index_lt (Node.mem_preorder.mpr ⟨above, hway.through.1⟩)

theorem ancestors_last {i : Nat} (hi : i < count) (hroot : i ≠ root.index) :
    ((Arena.ofNode root).ancestors i).getLast? = some root.index := by
  have hend := h.getLast_ancestors hi
  cases hup : (Arena.ofNode root).ancestors i with
  | nil =>
    rw [hup] at hend
    exact absurd (Option.some.inj hend) hroot
  | cons parent above =>
    rw [hup, List.getLast?_cons_cons] at hend
    exact hend

/-- A node is met on the way up from the nodes that the walk from it comes
    to after it. -/
theorem mem_ancestors_iff {i j : Nat} (hi : i < count) (hj : j < count) :
    j ∈ (Arena.ofNode root).ancestors i ↔ i ∈ (Arena.ofNode root).walk j ∧ i ≠ j := by
  obtain ⟨m, hm, rfl⟩ := h.exists_of_lt hi
  obtain ⟨n, hn, rfl⟩ := h.exists_of_lt hj
  rw [h.walk_index hn]
  constructor
  · intro hmet
    have hlt := (List.pairwise_cons.mp (h.ancestors_ascending hi)).1 n.index hmet
    obtain ⟨path, hway⟩ := Node.mem_preorder.mp hm
    rw [h.ancestors_of_leadsTo hway] at hmet
    obtain ⟨step, hstep, hsame⟩ := List.mem_map.mp hmet
    -- the way is cut where it leaves the node that is met
    obtain ⟨way, above, rfl⟩ := List.append_of_mem hstep
    obtain ⟨hparent, hbelow⟩ := hway.through
    have hself : step.parent = n := h.eq_of_index (Node.mem_preorder.mpr ⟨above, hparent⟩) hn hsame
    rw [hself] at hbelow
    exact ⟨hbelow.index_mem, Nat.ne_of_lt hlt⟩
  · intro hbelow
    obtain ⟨hmem, hne⟩ := hbelow
    obtain ⟨m', hm', hsame⟩ := List.mem_map.mp hmem
    have hself : m' = m := h.eq_of_index (Node.mem_preorder_trans hn hm') hm hsame
    rw [hself] at hm'
    obtain ⟨above, habove⟩ := Node.mem_preorder.mp hn
    obtain ⟨way, hway⟩ := Node.mem_preorder.mp hm'
    rw [h.ancestors_of_leadsTo (habove.trans hway), List.map_append]
    apply List.mem_append_left
    -- the way below starts at the node unless it is empty
    rcases List.eq_nil_or_concat way with rfl | ⟨later, first, rfl⟩
    · cases hway
      exact absurd rfl hne
    · rw [List.concat_eq_append] at hway ⊢
      exact List.mem_map.mpr ⟨first, by simp, congrArg Node.index hway.parent_eq⟩

end Numbered

/-! ## Section 4: The traversals of a pattern -/

/-- A table whose walks and ways up are those of a tree. -/
structure Arena.Traverses (a : Arena) (root : Node) : Prop where
  /-- The walk from a node is its pre-order in the tree. -/
  walk_node : ∀ n ∈ root.preorder, a.walk n.index = n.indices
  /-- Every number in the table is that of a node, the root has the last. -/
  exists_node : ∀ i < a.size, ∃ n ∈ root.preorder, n.index = i
  root_eq : a.root = root.index
  /-- A walk comes to its start, then to the walks from the children in order. -/
  walk_eq : ∀ i < a.size, a.walk i = i :: (a.children i).flatMap a.walk
  /-- No walk comes to a node twice. -/
  walk_nodup : ∀ i < a.size, (a.walk i).Nodup
  /-- A walk comes to a node before its children, and to these in order. -/
  walk_ordered : ∀ i < a.size, ∀ j ∈ a.walk i, (j :: a.children j).Sublist (a.walk i)
  /-- A walk comes to the nodes at and below its start and to no others. -/
  mem_walk_iff : ∀ i < a.size, ∀ j, j ∈ a.walk i ↔ a.Above i j
  /-- The nodes of a kind are those of the pre-order, in its order. -/
  find_node : ∀ n ∈ root.preorder, ∀ kind,
    a.find kind n.index = (n.preorder.filter fun m => m.kind == kind).map Node.index
  /-- Numbers grow strictly on the way up. -/
  ancestors_ascending : ∀ i < a.size, (i :: a.ancestors i).Pairwise (· < ·)
  ancestors_lt : ∀ i < a.size, ∀ j ∈ a.ancestors i, j < a.size
  /-- The way up ends at the root, and the root has none. -/
  ancestors_last : ∀ i < a.size, i ≠ root.index → (a.ancestors i).getLast? = some root.index
  ancestors_root : a.ancestors root.index = []
  /-- The way up from `i` passes `j` if the walk from `j` comes to `i` later. -/
  mem_ancestors_iff : ∀ i < a.size, ∀ j < a.size,
    (j ∈ a.ancestors i ↔ i ∈ a.walk j ∧ i ≠ j)
  /-- A visit remembers the same ancestors. -/
  ancestors_visit : ∀ v ∈ root.visits, a.ancestors v.node.index = v.ancestors.map Node.index

theorem Numbered.traverses {root : Node} {count : Nat} (h : Numbered [root] count) :
    (Arena.ofNode root).Traverses root where
  walk_node _ hn := h.walk_index hn
  exists_node i hi := h.exists_of_lt (h.size_ofNode ▸ hi)
  root_eq := h.root_ofNode
  walk_eq i hi := h.walk_eq (h.size_ofNode ▸ hi)
  walk_nodup i hi := h.nodup_walk (h.size_ofNode ▸ hi)
  walk_ordered i hi j hj := h.children_sublist_walk (h.size_ofNode ▸ hi) hj
  mem_walk_iff i hi j := h.mem_walk_iff (h.size_ofNode ▸ hi)
  find_node _ hn := h.find_index hn
  ancestors_ascending i hi := h.ancestors_ascending (h.size_ofNode ▸ hi)
  ancestors_lt i hi j hj := h.size_ofNode ▸ h.ancestors_lt (h.size_ofNode ▸ hi) hj
  ancestors_last i hi := h.ancestors_last (h.size_ofNode ▸ hi)
  ancestors_root := h.ancestors_root
  mem_ancestors_iff i hi j hj :=
    h.mem_ancestors_iff (h.size_ofNode ▸ hi) (h.size_ofNode ▸ hj)
  ancestors_visit v hv := by
    rw [h.ancestors_of_leadsTo (Node.mem_visits.mp hv), Visit.ancestors, List.map_map]
    rfl

/-- In the arena of every pattern that is read, walking down and going up
    agree with the tree: a walk is the pre-order at and below its start, the
    nodes of a kind are found in this order, the ancestors of a node ascend
    strictly to the root, and `j` is an ancestor of `i` exactly if the walk
    from `j` comes to `i` and they differ. -/
theorem Pattern.arena_traverses {text : Text} {p : Pattern} (h : Pattern.parse text = .ok p) :
    p.arena.Traverses p.root := by
  obtain ⟨count, hnumbered⟩ := numbered_of_parse h
  exact hnumbered.traverses

/-- In `a|b*` the walk from the alternation comes to the repeated letter last,
    whose ancestors are the quantifier and the alternation. -/
theorem Pattern.arena_traverses_of_alternation :
    ∃ p, Pattern.parse "a|b*".toList = .ok p ∧ p.arena.Traverses p.root ∧
      p.arena.walk 3 = [3, 0, 2, 1] ∧ p.arena.ancestors 1 = [2, 3] := by
  have hcheck : (Pattern.parse "a|b*".toList).toOption.any (fun p =>
      p.root.index == 3 && p.root.indices == [3, 0, 2, 1] && p.root.visits.any fun v =>
        v.node.index == 1 && v.ancestors.map Node.index == [2, 3]) = true := by
    decide +kernel
  obtain ⟨p, hp, hcheck⟩ := Pattern.exists_of_check hcheck
  simp only [Bool.and_eq_true, beq_iff_eq, List.any_eq_true] at hcheck
  obtain ⟨⟨hroot, hindices⟩, v, hv, hletter, habove⟩ := hcheck
  have htraverses := Pattern.arena_traverses hp
  have hwalk := htraverses.walk_node p.root p.root.mem_preorder_self
  have hup := htraverses.ancestors_visit v hv
  rw [hroot, hindices] at hwalk
  rw [hletter, habove] at hup
  exact ⟨p, hp, htraverses, hwalk, hup⟩

end RegexInsight
