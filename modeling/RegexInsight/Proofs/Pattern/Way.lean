import Mathlib
import RegexInsight.Proofs.Pattern.Tree

/-! # Ways down a tree

    A visit remembers the way to its node.  `LeadsTo` says which ways lead
    from a node to a node below it, step by step, and a tree is visited
    along exactly these ways.  A way can be cut at every step, so what
    stands above or below a visited node is read off the way to it. -/

namespace RegexInsight

namespace Node

/-! ## Section 1: Ways -/

/-- The steps that lead from `n` to a node below it, the last step first. -/
inductive LeadsTo (n : Node) : List Step → Node → Prop where
  | here : LeadsTo n [] n
  | down {path : List Step} {parent child : Node} {before after : List Node}
      (h : LeadsTo n path parent) (hchildren : parent.children = before.reverse ++ child :: after) :
      LeadsTo n (⟨parent, before, after⟩ :: path) child

variable {n m k : Node} {path way : List Step}

/-- A way to a node goes on with a way below it. -/
theorem LeadsTo.trans (hfirst : n.LeadsTo path m) (hsecond : m.LeadsTo way k) :
    n.LeadsTo (way ++ path) k := by
  induction hsecond with
  | here => exact hfirst
  | down _ hchildren ih => exact .down ih hchildren

/-- A way from a child is a way from its parent. -/
theorem LeadsTo.of_child {child : Node} {before after : List Node}
    (hchildren : n.children = before.reverse ++ child :: after) (h : child.LeadsTo path m) :
    n.LeadsTo (path ++ [⟨n, before, after⟩]) m :=
  LeadsTo.trans (.down .here hchildren) h

/-- A way is empty, or its first step enters a child. -/
theorem LeadsTo.first_step (h : n.LeadsTo path m) :
    (path = [] ∧ m = n) ∨ ∃ before child after below,
      n.children = before.reverse ++ child :: after ∧ child.LeadsTo below m ∧
        path = below ++ [⟨n, before, after⟩] := by
  induction h with
  | here => exact .inl ⟨rfl, rfl⟩
  | @down path parent child before after _ hchildren ih =>
    right
    rcases ih with ⟨rfl, rfl⟩ | ⟨before', first, after', below, hfirst, hbelow, rfl⟩
    · exact ⟨before, child, after, [], hchildren, .here, rfl⟩
    · exact ⟨before', first, after', _, hfirst, hbelow.down hchildren, rfl⟩

/-- The last step of a way starts at the parent of the node. -/
theorem LeadsTo.last_step {step : Step} (h : n.LeadsTo (step :: path) m) :
    n.LeadsTo path step.parent ∧
      step.parent.children = step.before.reverse ++ m :: step.after := by
  cases h with
  | down h hchildren => exact ⟨h, hchildren⟩

/-- A way can be cut between any two steps. -/
theorem LeadsTo.cut (h : n.LeadsTo (way ++ path) k) : ∃ m, n.LeadsTo path m ∧ m.LeadsTo way k := by
  induction way generalizing k with
  | nil => exact ⟨k, h, .here⟩
  | cons step way ih =>
    obtain ⟨habove, hchildren⟩ := h.last_step
    obtain ⟨m, hfirst, hsecond⟩ := ih habove
    exact ⟨m, hfirst, hsecond.down hchildren⟩

/-- Every step of a way starts at a node that the way passes. -/
theorem LeadsTo.through {step : Step} (h : n.LeadsTo (way ++ step :: path) m) :
    n.LeadsTo path step.parent ∧ step.parent.LeadsTo (way ++ [step]) m := by
  obtain ⟨child, habove, hbelow⟩ := h.cut
  obtain ⟨hparent, hchildren⟩ := habove.last_step
  exact ⟨hparent, hbelow.of_child hchildren⟩

/-- The first step of a way starts at the node that it leads away from. -/
theorem LeadsTo.parent_eq {step : Step} (h : n.LeadsTo (way ++ [step]) m) : step.parent = n := by
  obtain ⟨hparent, -⟩ := h.through
  cases hparent
  rfl

/-! ## Section 2: Visits along ways -/

theorem mem_visitsOf {parent : Node} {before rest : List Node} {v : Visit} :
    v ∈ visitsOf parent path before rest ↔ ∃ passed child after,
      rest = passed ++ child :: after ∧
        v ∈ child.visitsFrom (⟨parent, passed.reverse ++ before, after⟩ :: path) := by
  induction rest generalizing before with
  | nil => simp [visitsOf]
  | cons first rest ih =>
    simp only [visitsOf, List.mem_append, ih]
    constructor
    · rintro (hfirst | ⟨passed, child, after, rfl, hchild⟩)
      · exact ⟨[], first, rest, rfl, hfirst⟩
      · refine ⟨first :: passed, child, after, rfl, ?_⟩
        simpa using hchild
    · rintro ⟨passed, child, after, hrest, hchild⟩
      cases passed with
      | nil =>
        obtain ⟨rfl, rfl⟩ := List.cons.inj hrest
        exact .inl hchild
      | cons _ passed =>
        obtain ⟨rfl, rfl⟩ := List.cons.inj hrest
        refine .inr ⟨passed, child, after, rfl, ?_⟩
        simpa using hchild

/-- The first visit is that of the node itself; all others are visits from
    one of its children. -/
theorem mem_visitsFrom_iff {v : Visit} :
    v ∈ n.visitsFrom path ↔ v = ⟨n, path⟩ ∨ ∃ before child after,
      n.children = before.reverse ++ child :: after ∧
        v ∈ child.visitsFrom (⟨n, before, after⟩ :: path) := by
  obtain ⟨label, mark, children⟩ := n
  rw [visitsFrom, List.mem_cons, mem_visitsOf]
  -- the children passed on the way are remembered nearest first
  constructor
  · rintro (hself | ⟨passed, child, after, hchildren, hbelow⟩)
    · exact .inl hself
    · exact .inr ⟨passed.reverse, child, after, by simpa [Node.children] using hchildren,
        by simpa using hbelow⟩
  · rintro (hself | ⟨before, child, after, hchildren, hbelow⟩)
    · exact .inl hself
    · exact .inr ⟨before.reverse, child, after, hchildren, by simpa using hbelow⟩

/-- A tree is visited along the ways that lead down from its root. -/
theorem mem_visitsFrom {v : Visit} :
    v ∈ n.visitsFrom path ↔ ∃ way, n.LeadsTo way v.node ∧ v.path = way ++ path := by
  induction n using induction generalizing path v with
  | node label mark children ih =>
    rw [mem_visitsFrom_iff]
    constructor
    · rintro (rfl | ⟨before, child, after, hchildren, hbelow⟩)
      · exact ⟨[], .here, rfl⟩
      · have hchild : child ∈ children := by
          show child ∈ (node label mark children).children
          simp [hchildren]
        obtain ⟨way, hway, hpath⟩ := (ih child hchild).mp hbelow
        exact ⟨_, hway.of_child hchildren, by simp [hpath]⟩
    · rintro ⟨way, hway, hpath⟩
      rcases hway.first_step with ⟨rfl, hself⟩ | ⟨before, child, after, below, hchildren, hbelow, rfl⟩
      · left
        obtain ⟨self, path'⟩ := v
        obtain rfl : self = _ := hself
        obtain rfl : path' = path := hpath
        rfl
      · right
        have hchild : child ∈ children := by
          show child ∈ (node label mark children).children
          simp [hchildren]
        refine ⟨before, child, after, hchildren, (ih child hchild).mpr ⟨below, hbelow, ?_⟩⟩
        simpa using hpath

theorem mem_visits {v : Visit} : v ∈ n.visits ↔ n.LeadsTo v.path v.node := by
  simp [visits, mem_visitsFrom]

theorem mem_preorder {m : Node} : m ∈ n.preorder ↔ ∃ path, n.LeadsTo path m := by
  simp only [preorder, List.mem_map, mem_visits]
  constructor
  · rintro ⟨v, hway, rfl⟩
    exact ⟨v.path, hway⟩
  · rintro ⟨path, hway⟩
    exact ⟨⟨m, path⟩, hway, rfl⟩

/-! ## Section 3: Below a node -/

/-- The node `m` stands strictly below `n`. -/
def Below (n m : Node) : Prop :=
  ∃ child ∈ n.children, m ∈ child.preorder

/-- A node stands strictly below those that a step leads away from. -/
theorem below_iff : n.Below m ↔ ∃ step way, n.LeadsTo (way ++ [step]) m := by
  constructor
  · rintro ⟨child, hchild, hm⟩
    obtain ⟨passed, after, hchildren⟩ := List.append_of_mem hchild
    obtain ⟨way, hway⟩ := mem_preorder.mp hm
    have hsplit : n.children = passed.reverse.reverse ++ child :: after := by
      simpa using hchildren
    exact ⟨_, way, hway.of_child hsplit⟩
  · rintro ⟨step, way, hway⟩
    obtain ⟨child, hfirst, hbelow⟩ := hway.cut
    obtain ⟨hself, hchildren⟩ := hfirst.last_step
    cases hself
    exact ⟨child, by simp [hchildren], mem_preorder.mpr ⟨way, hbelow⟩⟩

theorem Below.mem_preorder (h : n.Below m) : m ∈ n.preorder := by
  obtain ⟨child, hchild, hm⟩ := h
  exact mem_preorder_of_child hchild hm

/-! ## Section 4: The only way to a node -/

/-- A list has only one split at a member with a property that no two of its
    members share. -/
theorem split_unique {α : Type} {P : α → Prop} {before before' after after' : List α} {a b : α}
    (hapart : (before ++ a :: after).Pairwise fun x y => ¬ (P x ∧ P y))
    (h : before ++ a :: after = before' ++ b :: after') (ha : P a) (hb : P b) :
    before = before' ∧ a = b ∧ after = after' := by
  induction before generalizing before' with
  | nil =>
    cases before' with
    | nil => exact ⟨rfl, List.cons.inj h⟩
    | cons first before' =>
      obtain ⟨rfl, hrest⟩ := List.cons.inj h
      have hmem : b ∈ after := by
        rw [hrest]
        simp
      -- the other split has its member further on, where none may share the property
      exact absurd ⟨ha, hb⟩ ((List.pairwise_cons.mp hapart).1 b hmem)
  | cons first before ih =>
    obtain ⟨hfirst, hpairs⟩ := List.pairwise_cons.mp hapart
    cases before' with
    | nil =>
      obtain ⟨rfl, -⟩ := List.cons.inj h
      have hmem : a ∈ before ++ a :: after := by simp
      exact absurd ⟨hb, ha⟩ (hfirst a hmem)
    | cons first' before' =>
      obtain ⟨rfl, hrest⟩ := List.cons.inj h
      obtain ⟨rfl, hsame⟩ := ih hpairs hrest
      exact ⟨rfl, hsame⟩

/-- When no number is given twice, a node does not stand below itself, and
    no two children stand above the same node. -/
theorem nodup_indices_iff : n.indices.Nodup ↔
    (∀ child ∈ n.children, n.index ∉ child.indices) ∧
      (∀ child ∈ n.children, child.indices.Nodup) ∧
      n.children.Pairwise fun a b => List.Disjoint a.indices b.indices := by
  obtain ⟨label, mark, children⟩ := n
  rw [indices_node, List.nodup_cons, List.nodup_flatMap]
  simp only [List.mem_flatMap, not_exists, not_and]
  rfl

theorem LeadsTo.index_mem (h : n.LeadsTo path m) : m.index ∈ n.indices :=
  List.mem_map.mpr ⟨m, mem_preorder.mpr ⟨path, h⟩, rfl⟩

/-- When no number is given twice, only one way leads to a node. -/
theorem LeadsTo.unique (hn : n.indices.Nodup) (h : n.LeadsTo path m) (h' : n.LeadsTo way m) :
    path = way := by
  induction n using induction generalizing path way with
  | node label mark children ih =>
    obtain ⟨hself, hchildren, hapart⟩ := nodup_indices_iff.mp hn
    rcases h.first_step with ⟨rfl, rfl⟩ | ⟨before, child, after, below, hsplit, hbelow, rfl⟩
    · rcases h'.first_step with ⟨rfl, -⟩ | ⟨before, child, after, below, hsplit, hbelow, -⟩
      · rfl
      · exact absurd hbelow.index_mem (hself child (by simp [hsplit]))
    · rcases h'.first_step with ⟨-, rfl⟩ | ⟨before', child', after', below', hsplit', hbelow', rfl⟩
      · exact absurd hbelow.index_mem (hself child (by simp [hsplit]))
      · -- both ways enter the one child that the node stands below
        have hpairs : (before.reverse ++ child :: after).Pairwise fun a b =>
            ¬ (m.index ∈ a.indices ∧ m.index ∈ b.indices) := by
          rw [← hsplit]
          exact hapart.imp fun hdisjoint hboth => hdisjoint hboth.1 hboth.2
        obtain ⟨hbefore, rfl, rfl⟩ := split_unique hpairs (hsplit.symm.trans hsplit')
          hbelow.index_mem hbelow'.index_mem
        obtain rfl := List.reverse_injective hbefore
        have hchild : child ∈ children := by
          show child ∈ (node label mark children).children
          simp [hsplit]
        rw [ih child hchild (hchildren child hchild) hbelow hbelow']

end Node

end RegexInsight
