import Mathlib
import RegexInsight.Proofs.Pattern.Numbering

/-! # The arena is a tree

    The table of a numbered tree has the node with number `i` in place
    `i`.  Hence its children, its parents and its walks are those of the
    tree: every node but the last is listed by exactly one other node,
    once, and that node has a larger number. -/

namespace RegexInsight

/-! ## Section 1: Numbers below a node -/

namespace Node

/-- The numbers of the children of a node. -/
def childIndices (n : Node) : List Nat :=
  n.children.map index

/-- Every number below a node is its own, or it is listed once by some node
    as that of a child. -/
theorem indices_perm (n : Node) :
    n.indices.Perm (n.index :: n.preorder.flatMap childIndices) := by
  induction n using induction with
  | node label mark children ih =>
    have hbelow : (children.flatMap indices).Perm
        (children.map index ++ children.flatMap fun child =>
          child.preorder.flatMap childIndices) := by
      induction children with
      | nil => exact List.Perm.refl _
      | cons child rest ihrest =>
        have hrest := ihrest fun other hother => ih other (List.mem_cons_of_mem _ hother)
        have hchild := ih child List.mem_cons_self
        simp only [List.flatMap_cons, List.map_cons, List.cons_append]
        refine (hchild.append hrest).trans ((List.perm_append_comm_assoc _ _ _).cons _)
    rw [indices_node, preorder_node, List.flatMap_cons, List.flatMap_assoc]
    exact hbelow.cons _

theorem Ascending.index_le {n m : Node} (h : n.Ascending) (hm : m ∈ n.preorder) :
    m.index ≤ n.index := by
  induction n using induction with
  | node label mark children ih =>
    rw [preorder_node] at hm
    rcases List.mem_cons.mp hm with rfl | hm
    · exact Nat.le_refl _
    · obtain ⟨child, hchild, hm⟩ := List.mem_flatMap.mp hm
      have hbelow : child ∈ (node label mark children).preorder :=
        child_mem_preorder (n := node label mark children) hchild
      have hlt := h _ (mem_preorder_self _) child hchild
      exact Nat.le_of_lt (Nat.lt_of_le_of_lt (ih child hchild (h.of_mem hbelow) hm) hlt)

end Node

/-! ## Section 2: The table of a numbered tree -/

namespace Numbered

variable {root : Node} {count : Nat} (h : Numbered [root] count)

include h

theorem perm_range : root.indices.Perm (List.range count) := by
  simpa using h.perm

theorem root_ascending : root.Ascending :=
  h.ascending root List.mem_cons_self

theorem index_lt {n : Node} (hn : n ∈ root.preorder) : n.index < count :=
  List.mem_range.mp (h.perm_range.mem_iff.mp (List.mem_map.mpr ⟨n, hn, rfl⟩))

theorem exists_of_lt {i : Nat} (hi : i < count) : ∃ n ∈ root.preorder, n.index = i :=
  List.mem_map.mp (h.perm_range.mem_iff.mpr (List.mem_range.mpr hi))

/-- The root is completed last. -/
theorem root_index : root.index + 1 = count := by
  have hlt := h.index_lt root.mem_preorder_self
  obtain ⟨n, hn, hindex⟩ := h.exists_of_lt (show count - 1 < count by omega)
  have hle := h.root_ascending.index_le hn
  omega

/-- In the order of their completion, the nodes carry the numbers in order. -/
theorem map_index_completed : root.completed.map Node.index = List.range count := by
  have hperm : (root.completed.map Node.index).Perm (List.range count) :=
    ((List.mergeSort_perm root.preorder _).map _).trans h.perm_range
  refine List.Perm.eq_of_pairwise
    (fun (a b : Nat) _ _ (hab : a ≤ b) (hba : b ≤ a) => Nat.le_antisymm hab hba) ?_ ?_ hperm
  · rw [List.pairwise_map]
    refine (List.pairwise_mergeSort ?_ ?_ root.preorder).imp fun hle => of_decide_eq_true hle
    · intro a b c hab hbc
      simp only [decide_eq_true_eq] at hab hbc ⊢
      omega
    · intro a b
      simp only [Bool.or_eq_true, decide_eq_true_eq]
      omega
  · exact List.pairwise_le_range

theorem size_ofNode : (Arena.ofNode root).size = count := by
  have hlen := congrArg List.length h.map_index_completed
  simpa [Arena.size, Arena.ofNode] using hlen

/-- The number of a node is its place in the table. -/
theorem completed_getElem? {i : Nat} {n : Node} :
    root.completed[i]? = some n ↔ n ∈ root.preorder ∧ n.index = i := by
  have hplace : ∀ {j : Nat} {m : Node}, root.completed[j]? = some m → m.index = j := by
    intro j m hm
    have hmap := congrArg (fun l => l[j]?) h.map_index_completed
    simp only [List.getElem?_map, hm, Option.map_some] at hmap
    obtain ⟨hlt, heq⟩ := List.getElem?_eq_some_iff.mp hmap.symm
    rw [← heq, List.getElem_range]
  constructor
  · intro hn
    exact ⟨(List.mergeSort_perm _ _).mem_iff.mp (List.mem_of_getElem? hn), hplace hn⟩
  · intro hmem
    obtain ⟨hn, rfl⟩ := hmem
    have hmem : n ∈ root.completed := (List.mergeSort_perm _ _).mem_iff.mpr hn
    obtain ⟨j, hj⟩ := List.mem_iff_getElem?.mp hmem
    rwa [hplace hj]

/-- A number belongs to one node only. -/
theorem eq_of_index {n m : Node} (hn : n ∈ root.preorder) (hm : m ∈ root.preorder)
    (heq : n.index = m.index) : n = m := by
  have hplace := h.completed_getElem?.mpr ⟨hn, heq⟩
  rw [h.completed_getElem?.mpr ⟨hm, rfl⟩] at hplace
  exact (Option.some.inj hplace).symm

theorem root_ofNode : (Arena.ofNode root).root = root.index := by
  rw [Arena.root, h.size_ofNode, ← h.root_index, Nat.add_sub_cancel]

theorem entries_getElem? {n : Node} (hn : n ∈ root.preorder) :
    (Arena.ofNode root).entries[n.index]? = some n.entry := by
  have hplace := h.completed_getElem?.mpr ⟨hn, rfl⟩
  simp [Arena.ofNode, hplace]

theorem children_index {n : Node} (hn : n ∈ root.preorder) :
    (Arena.ofNode root).children n.index = n.childIndices := by
  simp only [Arena.children, h.entries_getElem? hn]
  rfl

theorem children_eq_nil {i : Nat} (hi : count ≤ i) : (Arena.ofNode root).children i = [] := by
  have hsize : (Arena.ofNode root).entries.size ≤ i := Nat.le_trans (Nat.le_of_eq h.size_ofNode) hi
  have hnone : (Arena.ofNode root).entries[i]? = none := Array.getElem?_eq_none hsize
  simp only [Arena.children, hnone]

/-- A node lists another one exactly when it has it as a child. -/
theorem mem_children_iff {i j : Nat} :
    j ∈ (Arena.ofNode root).children i ↔
      ∃ n ∈ root.preorder, n.index = i ∧ j ∈ n.childIndices := by
  constructor
  · intro hj
    by_cases hi : i < count
    · obtain ⟨n, hn, rfl⟩ := h.exists_of_lt hi
      exact ⟨n, hn, rfl, h.children_index hn ▸ hj⟩
    · rw [h.children_eq_nil (Nat.not_lt.mp hi)] at hj
      exact absurd hj List.not_mem_nil
  · intro hmem
    obtain ⟨n, hn, rfl, hj⟩ := hmem
    exact (h.children_index hn).symm ▸ hj

theorem child_lt {i j : Nat} (hj : j ∈ (Arena.ofNode root).children i) : j < i := by
  obtain ⟨n, hn, rfl, hlisted⟩ := h.mem_children_iff.mp hj
  obtain ⟨child, hchild, rfl⟩ := List.mem_map.mp hlisted
  exact h.root_ascending n hn child hchild

theorem lt_of_children {i j : Nat} (hj : j ∈ (Arena.ofNode root).children i) : i < count := by
  obtain ⟨n, hn, rfl, -⟩ := h.mem_children_iff.mp hj
  exact h.index_lt hn

/-! ## Section 3: One parent each -/

/-- The numbers listed in the whole table are those of all nodes but the
    root, each once. -/
theorem nodup_listed : (root.index :: root.preorder.flatMap Node.childIndices).Nodup :=
  (root.indices_perm.symm.trans h.perm_range).nodup_iff.mpr List.nodup_range

theorem nodup_childIndices {n : Node} (hn : n ∈ root.preorder) : n.childIndices.Nodup :=
  (List.nodup_flatMap.mp (List.nodup_cons.mp h.nodup_listed).2).1 n hn

theorem listed_once {n m : Node} {j : Nat} (hn : n ∈ root.preorder) (hm : m ∈ root.preorder)
    (hjn : j ∈ n.childIndices) (hjm : j ∈ m.childIndices) : n = m := by
  by_contra hne
  have hdisjoint := (List.nodup_flatMap.mp (List.nodup_cons.mp h.nodup_listed).2).2
  have hsymm : Std.Symm (Function.onFun List.Disjoint Node.childIndices) :=
    ⟨fun _ _ => List.Disjoint.symm⟩
  exact hdisjoint.forall hn hm hne hjn hjm

theorem parent_unique {i j k : Nat} (hi : k ∈ (Arena.ofNode root).children i)
    (hj : k ∈ (Arena.ofNode root).children j) : i = j := by
  obtain ⟨n, hn, rfl, hkn⟩ := h.mem_children_iff.mp hi
  obtain ⟨m, hm, rfl, hkm⟩ := h.mem_children_iff.mp hj
  rw [h.listed_once hn hm hkn hkm]

theorem exists_parent {i : Nat} (hi : i < count) (hroot : i ≠ root.index) :
    ∃ parent, i ∈ (Arena.ofNode root).children parent := by
  have hmem : i ∈ root.index :: root.preorder.flatMap Node.childIndices :=
    (root.indices_perm.symm.trans h.perm_range).mem_iff.mpr (List.mem_range.mpr hi)
  obtain ⟨n, hn, hlisted⟩ := List.mem_flatMap.mp ((List.mem_cons.mp hmem).resolve_left hroot)
  exact ⟨n.index, h.mem_children_iff.mpr ⟨n, hn, rfl, hlisted⟩⟩

theorem count_children {i j : Nat} (hj : j ∈ (Arena.ofNode root).children i) :
    ((Arena.ofNode root).children i).count j = 1 := by
  obtain ⟨n, hn, rfl, -⟩ := h.mem_children_iff.mp hj
  rw [h.children_index hn] at hj ⊢
  exact List.count_eq_one_of_mem (h.nodup_childIndices hn) hj

/-! ## Section 4: Walking -/

/-- Walking from a node visits it and what stands below it, in pattern
    order, before it goes on with the stack. -/
theorem walkStack_index {n : Node} (hn : n ∈ root.preorder) (fuel : Nat) (stack : List Nat)
    (visited : Array Nat) :
    (Arena.ofNode root).walkStack (n.indices.length + fuel) (n.index :: stack) visited =
      (Arena.ofNode root).walkStack fuel stack (visited ++ n.indices.toArray) := by
  induction n using Node.induction generalizing fuel stack visited with
  | node label mark children ih =>
    -- the same for some of the children on top of the stack
    have hall : ∀ rest : List Node, (∀ child ∈ rest, child ∈ children) → ∀ visited : Array Nat,
        (Arena.ofNode root).walkStack ((rest.flatMap Node.indices).length + fuel)
          (rest.map Node.index ++ stack) visited =
        (Arena.ofNode root).walkStack fuel stack
          (visited ++ (rest.flatMap Node.indices).toArray) := by
      intro rest
      induction rest with
      | nil => intro _ visited; simp
      | cons child rest ihrest =>
        intro hsub visited
        have hchild : child ∈ children := hsub child List.mem_cons_self
        have hbelow : child ∈ root.preorder :=
          Node.mem_preorder_trans hn
            (Node.child_mem_preorder (n := .node label mark children) hchild)
        have hfuel : ((child :: rest).flatMap Node.indices).length + fuel =
            child.indices.length + ((rest.flatMap Node.indices).length + fuel) := by
          rw [List.flatMap_cons, List.length_append, Nat.add_assoc]
        rw [hfuel, List.map_cons, List.cons_append, ih child hchild hbelow,
          ihrest (fun other hother => hsub other (List.mem_cons_of_mem _ hother))]
        simp [Array.append_assoc]
    have hkids : (Arena.ofNode root).children (Node.node label mark children).index =
        children.map Node.index := h.children_index hn
    have hfuel : (Node.node label mark children).indices.length + fuel =
        ((children.flatMap Node.indices).length + fuel) + 1 := by
      rw [Node.indices_node, List.length_cons]
      omega
    rw [hfuel, Arena.walkStack, hkids, hall children (fun _ hchild => hchild), Node.indices_node]
    congr 1
    rw [Array.push_eq_append, Array.append_assoc]
    simp
    rfl

/-- The walk from a node is the pre-order of the tree below it. -/
theorem walk_index {n : Node} (hn : n ∈ root.preorder) :
    (Arena.ofNode root).walk n.index = n.indices := by
  have hle : n.indices.length ≤ count := by
    have hbelow := (root.preorder_sublist hn).length_le
    have hall := h.perm_range.length_eq
    simp only [Node.indices, List.length_map, List.length_range] at hall ⊢
    omega
  obtain ⟨fuel, hfuel⟩ := Nat.exists_eq_add_of_le hle
  rw [Arena.walk, h.size_ofNode, hfuel, h.walkStack_index hn]
  cases fuel <;> simp [Arena.walkStack]

end Numbered

/-! ## Section 5: The table of parents -/

namespace Arena

/-- Enters a node as the parent of its children. -/
def enter (a : Arena) (table : Array (Option Nat)) (parent : Nat) : Array (Option Nat) :=
  (a.children parent).foldl (fun t child => t.setIfInBounds child (some parent)) table

theorem parents_eq (a : Arena) :
    a.parents = (List.range a.size).foldl a.enter (Array.replicate a.size none) :=
  rfl

theorem setAll_getElem? (parent j : Nat) (below : List Nat) (table : Array (Option Nat)) :
    (below.foldl (fun t child => t.setIfInBounds child (some parent)) table)[j]? =
      if j ∈ below ∧ j < table.size then some (some parent) else table[j]? := by
  induction below generalizing table with
  | nil => simp
  | cons child rest ih =>
    rw [List.foldl_cons, ih, Array.size_setIfInBounds, Array.getElem?_setIfInBounds]
    grind

theorem enter_getElem? (a : Arena) (table : Array (Option Nat)) (parent j : Nat) :
    (a.enter table parent)[j]? =
      if j ∈ a.children parent ∧ j < table.size then some (some parent) else table[j]? :=
  setAll_getElem? parent j (a.children parent) table

/-- Entering more parents does not move the end of the table. -/
theorem size_enter (a : Arena) (table : Array (Option Nat)) (parent : Nat) :
    (a.enter table parent).size = table.size := by
  have hsize : ∀ (below : List Nat) (t : Array (Option Nat)),
      (below.foldl (fun t child => t.setIfInBounds child (some parent)) t).size = t.size := by
    intro below
    induction below with
    | nil => intro t; rfl
    | cons child rest ih => intro t; rw [List.foldl_cons, ih, Array.size_setIfInBounds]
  exact hsize _ _

theorem size_enterAll (a : Arena) (table : Array (Option Nat)) (nodes : List Nat) :
    (nodes.foldl a.enter table).size = table.size := by
  induction nodes generalizing table with
  | nil => rfl
  | cons parent rest ih => rw [List.foldl_cons, ih, size_enter]

/-- Once some nodes are entered, the table has a parent for a node exactly
    if one of them lists it. -/
theorem enterAll_getElem? {a : Arena}
    (hunique : ∀ {i j k : Nat}, k ∈ a.children i → k ∈ a.children j → i = j) {j : Nat}
    (hj : j < a.size) (n parent : Nat) :
    ((List.range n).foldl a.enter (Array.replicate a.size none))[j]? = some (some parent) ↔
      parent < n ∧ j ∈ a.children parent := by
  induction n with
  | zero => simp [Array.getElem?_replicate]
  | succ n ih =>
    rw [List.range_succ, List.foldl_append, List.foldl_cons, List.foldl_nil, enter_getElem?,
      size_enterAll, Array.size_replicate]
    split
    next hlisted =>
      -- the entry is overwritten, but only one parent lists it
      constructor
      · rintro ⟨⟩
        exact ⟨Nat.lt_succ_self _, hlisted.1⟩
      · intro hmem
        obtain ⟨-, hmem⟩ := hmem
        exact congrArg (some ∘ some) (hunique hlisted.1 hmem)
    next hnot =>
      rw [ih]
      constructor
      · intro hmem
        obtain ⟨hlt, hmem⟩ := hmem
        exact ⟨Nat.lt_succ_of_lt hlt, hmem⟩
      · intro hmem
        obtain ⟨hlt, hmem⟩ := hmem
        have hne : parent ≠ n := fun heq => hnot ⟨heq ▸ hmem, hj⟩
        exact ⟨by omega, hmem⟩

end Arena

/-! ## Section 6: Climbing -/

namespace Arena

/-- Parents have larger numbers, so the climb from a node is complete once
    its fuel reaches the end of the table. -/
theorem climb_stable {parents : Array (Option Nat)}
    (hup : ∀ i parent : Nat, parents[i]? = some (some parent) → i < parent) :
    ∀ (fuel fuel' i : Nat), parents.size ≤ i + fuel → parents.size ≤ i + fuel' →
      climb parents fuel i = climb parents fuel' i := by
  intro fuel
  induction fuel with
  | zero =>
    intro fuel' i hsize _
    have hnone : parents[i]? = none := Array.getElem?_eq_none (by omega)
    cases fuel' <;> simp [climb, hnone]
  | succ fuel ih =>
    intro fuel' i hsize hsize'
    cases fuel' with
    | zero =>
      have hnone : parents[i]? = none := Array.getElem?_eq_none (by omega)
      simp [climb, hnone]
    | succ fuel' =>
      simp only [climb]
      split
      next parent hparent =>
        have hlt := hup i parent hparent
        rw [ih fuel' parent (by omega) (by omega)]
      next => rfl

end Arena

namespace Numbered

variable {root : Node} {count : Nat} (h : Numbered [root] count)

include h

theorem size_parents : (Arena.ofNode root).parents.size = count := by
  rw [Arena.parents_eq, Arena.size_enterAll, Array.size_replicate, h.size_ofNode]

/-- The table of parents inverts the lists of children. -/
theorem parents_iff {i parent : Nat} :
    (Arena.ofNode root).parents[i]? = some (some parent) ↔
      i ∈ (Arena.ofNode root).children parent := by
  by_cases hi : i < (Arena.ofNode root).size
  · rw [Arena.parents_eq, Arena.enterAll_getElem? h.parent_unique hi, h.size_ofNode]
    exact and_iff_right_of_imp h.lt_of_children
  · rw [h.size_ofNode] at hi
    have hnone : (Arena.ofNode root).parents[i]? = none :=
      Array.getElem?_eq_none (by rw [h.size_parents]; omega)
    rw [hnone]
    exact iff_of_false nofun fun hmem => hi ((h.child_lt hmem).trans (h.lt_of_children hmem))

/-- No node lists the root. -/
theorem root_not_child (i : Nat) : root.index ∉ (Arena.ofNode root).children i := by
  intro hmem
  have hlt := h.child_lt hmem
  have hcount := h.lt_of_children hmem
  have hroot := h.root_index
  omega

theorem parents_root : (Arena.ofNode root).parents[root.index]? = some none := by
  have hlt : root.index < (Arena.ofNode root).parents.size := by
    have hroot := h.root_index
    rw [h.size_parents]
    omega
  obtain ⟨entry, hentry⟩ : ∃ entry, (Arena.ofNode root).parents[root.index]? = some entry :=
    ⟨_, Array.getElem?_eq_getElem hlt⟩
  cases entry with
  | none => exact hentry
  | some parent => exact absurd (h.parents_iff.mp hentry) (h.root_not_child parent)

/-- The ancestors of a listed node are the node that lists it, and those of
    that node. -/
theorem ancestors_of_child {i parent : Nat} (hi : i ∈ (Arena.ofNode root).children parent) :
    (Arena.ofNode root).ancestors i = parent :: (Arena.ofNode root).ancestors parent := by
  have hlt := h.child_lt hi
  have hcount := h.lt_of_children hi
  obtain ⟨fuel, hfuel⟩ := Nat.exists_eq_add_of_lt (Nat.zero_lt_of_lt hcount)
  have hup : ∀ k above : Nat,
      (Arena.ofNode root).parents[k]? = some (some above) → k < above :=
    fun k above habove => h.child_lt (h.parents_iff.mp habove)
  have hstable := Arena.climb_stable hup fuel count parent (by rw [h.size_parents]; omega)
    (by rw [h.size_parents]; omega)
  have hsucc : count = fuel + 1 := by omega
  simp only [Arena.ancestors, h.size_ofNode]
  rw [← hstable, hsucc, Arena.climb, h.parents_iff.mpr hi]

theorem ancestors_root : (Arena.ofNode root).ancestors root.index = [] := by
  simp only [Arena.ancestors, h.size_ofNode, ← h.root_index, Arena.climb, h.parents_root]

/-- The climb from every node ends at the root. -/
theorem getLast_ancestors {i : Nat} (hi : i < count) :
    (i :: (Arena.ofNode root).ancestors i).getLast? = some root.index := by
  by_cases hroot : i = root.index
  · rw [hroot, h.ancestors_root]
    rfl
  · obtain ⟨parent, hparent⟩ := h.exists_parent hi hroot
    have hup := h.child_lt hparent
    have hlt := h.lt_of_children hparent
    rw [h.ancestors_of_child hparent, List.getLast?_cons_cons]
    exact getLast_ancestors hlt
termination_by count - i

end Numbered

/-! ## Section 7: The arena of a pattern -/

/-- A table of nodes in which `children`, `parents`, `walk` and `ancestors`
    are those of one tree with the given root. -/
structure Arena.IsTree (a : Arena) (root : Nat) : Prop where
  /-- The root is the last node. -/
  root_last : root + 1 = a.size
  /-- A parent comes after its children. -/
  child_lt : ∀ {parent child}, child ∈ a.children parent → child < parent ∧ parent < a.size
  /-- No node lists the root. -/
  root_unlisted : ∀ parent, root ∉ a.children parent
  /-- One node lists any other one, and lists it once. -/
  one_parent : ∀ i < a.size, i ≠ root → ∃! parent, (a.children parent).count i = 1
  listed_once : ∀ {parent child}, child ∈ a.children parent → (a.children parent).count child = 1
  /-- The walk from the root visits every node once. -/
  walk_root : (a.walk root).Perm (List.range a.size)
  /-- The parents invert the children. -/
  parents_iff : ∀ {parent child}, a.parents[child]? = some (some parent) ↔
    child ∈ a.children parent
  parents_root : a.parents[root]? = some none
  /-- The ancestors of a node are its parent and the ancestors of that one. -/
  ancestors_child : ∀ {parent child}, child ∈ a.children parent →
    a.ancestors child = parent :: a.ancestors parent
  ancestors_root : a.ancestors root = []
  /-- The way up ends at the root from every node. -/
  ancestors_end : ∀ i < a.size, (i :: a.ancestors i).getLast? = some root

theorem Numbered.isTree {root : Node} {count : Nat} (h : Numbered [root] count) :
    (Arena.ofNode root).IsTree root.index where
  root_last := h.root_index.trans h.size_ofNode.symm
  child_lt hchild := ⟨h.child_lt hchild, h.size_ofNode.symm ▸ h.lt_of_children hchild⟩
  root_unlisted := h.root_not_child
  one_parent := by
    intro i hi hroot
    obtain ⟨parent, hparent⟩ := h.exists_parent (h.size_ofNode ▸ hi) hroot
    refine ⟨parent, h.count_children hparent, fun other hother => ?_⟩
    have hlisted : i ∈ (Arena.ofNode root).children other :=
      List.count_pos_iff.mp (hother ▸ Nat.one_pos)
    exact h.parent_unique hlisted hparent
  listed_once := h.count_children
  walk_root := by
    rw [h.walk_index root.mem_preorder_self, h.size_ofNode]
    exact h.perm_range
  parents_iff := h.parents_iff
  parents_root := h.parents_root
  ancestors_child := h.ancestors_of_child
  ancestors_root := h.ancestors_root
  ancestors_end i hi := h.getLast_ancestors (h.size_ofNode ▸ hi)

/-- The arena of every pattern that is read is a tree, and holds each node
    of the pattern under its number. -/
theorem Pattern.arena_isTree {text : Text} {p : Pattern} (h : Pattern.parse text = .ok p) :
    p.arena.IsTree p.root.index ∧
      ∀ n ∈ p.root.preorder, p.arena.entries[n.index]? = some n.entry := by
  obtain ⟨count, hnumbered⟩ := numbered_of_parse h
  exact ⟨hnumbered.isTree, fun n hn => hnumbered.entries_getElem? hn⟩

/-- The last of the four nodes of `a|b*` is its alternation. -/
theorem Pattern.arena_isTree_of_alternation :
    ∃ p, Pattern.parse "a|b*".toList = .ok p ∧ p.arena.size = 4 ∧ p.arena.IsTree 3 := by
  have hcheck : (Pattern.parse "a|b*".toList).toOption.any (fun p => p.root.index == 3) = true := by
    decide +kernel
  obtain ⟨p, hp, hroot⟩ := Pattern.exists_of_check hcheck
  have htree := (Pattern.arena_isTree hp).1
  rw [eq_of_beq hroot] at htree
  exact ⟨p, hp, htree.root_last.symm, htree⟩

end RegexInsight
