import Mathlib
import RegexInsight.Explanation.Assembly
import RegexInsight.Proofs.Explanation.Resolution
import RegexInsight.Proofs.Pattern.ArenaTree
import RegexInsight.Proofs.Pattern.NormalForm

/-! # Slots

    Assembling the parts of a pattern from the table of its nodes gives what
    the recursion over the tree gives.  What carries a run over the table is
    that the parts of every node whose parent is still to come wait in the
    slot of the node.  They are there when the parent takes them, because
    children come before their parents, and nobody took them before,
    because every node has one parent only, which lists it once. -/

namespace RegexInsight

/-! ## Section 1: Taking out -/

namespace Slots

variable {slots : Slots} {i j : Nat} {nodes : List Node} {parts : Node → List Part}

theorem size_takeOutAll (slots : Slots) (numbers : List Nat) :
    (slots.takeOutAll numbers).2.size = slots.size := by
  induction numbers generalizing slots with
  | nil => rfl
  | cons i rest ih => exact (ih _).trans (Array.size_setIfInBounds ..)

/-- Only the slots that are asked for are emptied. -/
theorem getElem?_takeOutAll {numbers : List Nat} (h : j ∉ numbers) :
    (slots.takeOutAll numbers).2[j]? = slots[j]? := by
  induction numbers generalizing slots with
  | nil => rfl
  | cons i rest ih =>
    rw [List.mem_cons, not_or] at h
    exact (ih h.2).trans (Array.getElem?_setIfInBounds_ne (Ne.symm h.1))

/-- From different slots everything comes out that is in them. -/
theorem fst_takeOutAll (hnodup : (nodes.map Node.index).Nodup)
    (h : ∀ n ∈ nodes, slots[n.index]? = some (some (parts n))) :
    (slots.takeOutAll (nodes.map Node.index)).1 = nodes.map parts := by
  induction nodes generalizing slots with
  | nil => rfl
  | cons n rest ih =>
    obtain ⟨hfresh, hrest⟩ := List.nodup_cons.mp hnodup
    obtain ⟨hfirst, hothers⟩ := List.forall_mem_cons.mp h
    -- the slots of the others are as they were
    have hkept : ∀ m ∈ rest,
        (slots.setIfInBounds n.index none)[m.index]? = some (some (parts m)) := by
      intro m hm
      have hne : n.index ≠ m.index := fun heq => hfresh (heq ▸ List.mem_map_of_mem hm)
      rw [Array.getElem?_setIfInBounds_ne hne]
      exact hothers m hm
    have hbody : (slots.takeOut n.index).1 = parts n := by
      rw [takeOut, hfirst]
      rfl
    exact congrArg₂ List.cons hbody (ih hrest hkept)

end Slots

/-! ## Section 2: One node -/

/-- A node of a kind that suits its children takes all of them. -/
theorem Label.Suits.taken? {label : Label} {below : List Label} {children : List Nat}
    (h : label.Suits below) (hlength : children.length = below.length) :
    label.taken? children = some children := by
  have hone : ∀ {body : Label}, below = [body] →
      (children.head?.map fun child => [child]) = some children := by
    rintro body rfl
    obtain ⟨child, rfl⟩ := List.length_eq_one_iff.mp hlength
    rfl
  cases h with
  | leaf hleaf =>
    obtain rfl := List.length_eq_zero_iff.mp hlength
    cases hleaf with
    | plain hplain => cases hplain <;> rfl
    | _ => rfl
  | group => exact hone rfl
  | lookaround => exact hone rfl
  | quantifier => exact hone rfl
  | concat => rfl
  | alternation => rfl
  | conditional => rfl

namespace Node

/-- A node without what stands below its children. -/
def cut (n : Node) : Node :=
  .node n.label n.mark (n.children.map fun child => .node child.label child.mark [])

/-- The parts of a node depend on nothing below its children but their
    parts. -/
theorem partsOf_cut (p : Pattern) (n : Node) (bodies : List (List Part)) :
    partsOf p n.cut bodies = partsOf p n bodies := by
  have htokens : n.cut.children.map p.textOf = n.children.map p.textOf := by
    rw [cut, children, List.map_map]
    rfl
  have hstops : n.cut.children.map stop = n.children.map stop := by
    rw [cut, children, List.map_map]
    rfl
  have hlength : n.cut.children.length = n.children.length := List.length_map ..
  unfold partsOf
  rw [htokens, hstops, hlength]
  rfl

end Node

/-- Steps that all succeed give the list of their results. -/
theorem mapM_eq_some_map {α β : Type} {f : α → Option β} {g : α → β} {xs : List α}
    (h : ∀ x ∈ xs, f x = some (g x)) : xs.mapM f = some (xs.map g) := by
  induction xs with
  | nil => rfl
  | cons x xs ih =>
    obtain ⟨hx, hxs⟩ := List.forall_mem_cons.mp h
    simp [List.mapM_cons, hx, ih hxs]

namespace Numbered

variable {root : Node} {count : Nat} (h : Numbered [root] count)

include h

/-- The table has every node under its number. -/
theorem node?_index {n : Node} (hn : n ∈ root.preorder) :
    (Arena.ofNode root).node? n.index = some n.cut := by
  have hchildren : n.entry.children.mapM (fun child =>
      (Arena.ofNode root).entries[child]?.map fun below => below.over child []) =
        some (n.children.map fun child => .node child.label child.mark []) := by
    show (n.children.map Node.index).mapM _ = _
    rw [List.mapM_map]
    refine mapM_eq_some_map fun child hchild => ?_
    have hbelow := Node.mem_preorder_trans hn (Node.child_mem_preorder hchild)
    rw [Function.comp_apply, h.entries_getElem? hbelow]
    rfl
  simp only [Arena.node?, h.entries_getElem? hn, Option.bind_eq_bind, Option.bind_some, hchildren]
  rfl

end Numbered

/-! ## Section 3: A run over the table -/

namespace Pattern

variable {p : Pattern} {count k : Nat} {slots : Slots}

/-- After the first `k` nodes, the parts of each of them whose parent is
    still to come wait in its slot. -/
structure Waiting (p : Pattern) (count : Nat) (slots : Slots) (k : Nat) : Prop where
  size : slots.size = count
  parts : ∀ n ∈ p.root.preorder, n.index < k →
    (∀ m ∈ p.root.preorder, n.index ∈ m.childIndices → k ≤ m.index) →
      slots[n.index]? = some (some (explainNode p n))

theorem explainNode_eq (p : Pattern) (n : Node) :
    explainNode p n = partsOf p n (n.children.map (explainNode p)) := by
  obtain ⟨label, mark, children⟩ := n
  rw [explainNode, explainNodes_eq_map]
  rfl

section Run

variable (hnumbered : Numbered [p.root] count) (hnormal : p.root.IsNormal)

include hnumbered hnormal

/-- The next node finds the parts of its children and leaves its own. -/
theorem Waiting.step (h : p.Waiting count slots k) (hk : k < count) :
    ∃ slots', p.assembleAt slots k = some slots' ∧ p.Waiting count slots' (k + 1) := by
  obtain ⟨n, hn, rfl⟩ := hnumbered.exists_of_lt hk
  have hbelow : ∀ child ∈ n.children, child ∈ p.root.preorder := fun child hchild =>
    Node.mem_preorder_trans hn (Node.child_mem_preorder hchild)
  have hslots : ∀ child ∈ n.children,
      slots[child.index]? = some (some (explainNode p child)) := by
    intro child hchild
    refine h.parts child (hbelow child hchild) (hnumbered.root_ascending n hn child hchild) ?_
    intro m hm hlists
    have hmem : child.index ∈ n.childIndices := List.mem_map_of_mem hchild
    rw [hnumbered.listed_once hm hn hlists hmem]
  have hbodies := Slots.fst_takeOutAll (hnumbered.nodup_childIndices hn) hslots
  have htaken : n.label.taken? n.childIndices = some n.childIndices :=
    (hnormal n hn).1.taken? (by simp [Node.childIndices])
  refine ⟨(slots.takeOutAll n.childIndices).2.setIfInBounds n.index (some (explainNode p n)),
    ?_, ?_, ?_⟩
  · have hcut : n.cut.children.map Node.index = n.childIndices := by
      rw [Node.cut, Node.children, List.map_map]
      rfl
    have hlabel : n.cut.label = n.label := rfl
    have hparts : partsOf p n.cut (slots.takeOutAll n.childIndices).1 = explainNode p n := by
      rw [n.partsOf_cut, explainNode_eq]
      exact congrArg (partsOf p n) hbodies
    simp only [assembleAt, arena, hnumbered.node?_index hn, Option.bind_eq_bind, Option.bind_some,
      hcut, hlabel, htaken, hparts]
    rfl
  · rw [Array.size_setIfInBounds, Slots.size_takeOutAll, h.size]
  · intro m hm hlt hparents
    rcases Nat.lt_succ_iff_lt_or_eq.mp hlt with hbefore | hsame
    · -- the parent of `m` is still to come, so it is not `n`
      have hkept : m.index ∉ n.childIndices := fun hlisted =>
        Nat.not_succ_le_self _ (hparents n hn hlisted)
      rw [Array.getElem?_setIfInBounds_ne (Nat.ne_of_gt hbefore), Slots.getElem?_takeOutAll hkept]
      exact h.parts m hm hbefore fun parent hparent hlists =>
        Nat.le_of_succ_le (hparents parent hparent hlists)
    · obtain rfl : m = n := hnumbered.eq_of_index hm hn hsame
      have hin : m.index < (slots.takeOutAll m.childIndices).2.size := by
        rw [Slots.size_takeOutAll, h.size]
        exact hk
      exact Array.getElem?_setIfInBounds_self_of_lt hin

/-- After all nodes only the parts of the root wait. -/
theorem exists_waiting (hk : k ≤ count) :
    ∃ slots, (List.range k).foldlM p.assembleAt (Array.replicate count none) = some slots ∧
      p.Waiting count slots k := by
  induction k with
  | zero => exact ⟨_, rfl, Array.size_replicate, fun n _ hlt => absurd hlt (Nat.not_lt_zero _)⟩
  | succ k ih =>
    obtain ⟨slots, hrun, hwaiting⟩ := ih (Nat.le_of_succ_le hk)
    obtain ⟨slots', hstep, hwaiting'⟩ := hwaiting.step hnumbered hnormal hk
    refine ⟨slots', ?_, hwaiting'⟩
    rw [List.range_succ, List.foldlM_append, hrun]
    simp [hstep]

theorem assemble?_eq : p.assemble? = some p.parts := by
  obtain ⟨slots, hrun, hwaiting⟩ := exists_waiting hnumbered hnormal (Nat.le_refl count)
  have hsize : p.arena.size = count := hnumbered.size_ofNode
  have hindex := hnumbered.root_index
  have hroot : slots[p.root.index]? = some (some (explainNode p p.root)) := by
    refine hwaiting.parts p.root p.root.mem_preorder_self (by omega) fun m hm hlists => ?_
    have hlisted := hnumbered.mem_children_iff.mpr ⟨m, hm, rfl, hlists⟩
    exact absurd hlisted (hnumbered.root_not_child m.index)
  have harena : p.arena.root = p.root.index := hnumbered.root_ofNode
  rw [assemble?, hsize, hrun, harena]
  show some (slots[p.root.index]?.join.getD []) = _
  rw [hroot]
  rfl

end Run

end Pattern

end RegexInsight
