import Mathlib
import RegexInsight.Proofs.CharSet.Canonical
import RegexInsight.Proofs.Pattern.NormalForm

/-! # Canonical reach

    Every character set in the tree of a parsed pattern is in canonical
    form, those of leaves because of how they are read and those of inner
    nodes because of how they are put together.  So the overlap test is
    exact for any two of them. -/

namespace RegexInsight

/-! ## Section 1: Reaches -/

/-- Both sets of a reach are in canonical form. -/
structure Reach.IsCanonical (r : Reach) : Prop where
  chars : r.chars.IsCanonical
  first : r.first.IsCanonical

namespace Reach

theorem isCanonical_nothing : nothing.IsCanonical :=
  ⟨canonical_nil, canonical_nil⟩

theorem isCanonical_anything : anything.IsCanonical :=
  ⟨CharSet.isCanonical_everything, CharSet.isCanonical_everything⟩

theorem isCanonical_one {a : CharSet} (h : a.IsCanonical) : (one a).IsCanonical :=
  ⟨h, h⟩

theorem isCanonical_firstOfSequence {items : List Reach} (h : ∀ r ∈ items, r.IsCanonical) :
    (firstOfSequence items).IsCanonical := by
  cases items with
  | nil => exact canonical_nil
  | cons r rest =>
    unfold firstOfSequence
    split
    · exact (h r List.mem_cons_self).first
    · exact CharSet.isCanonical_union _ _

theorem isCanonical_sequence {items : List Reach} (h : ∀ r ∈ items, r.IsCanonical) :
    (sequence items).IsCanonical :=
  ⟨CharSet.isCanonical_unionAll _, isCanonical_firstOfSequence h⟩

theorem isCanonical_choice (branches : List Reach) : (choice branches).IsCanonical :=
  ⟨CharSet.isCanonical_unionAll _, CharSet.isCanonical_unionAll _⟩

theorem isCanonical_repeated (bounds : Bounds) {body : Reach} (h : body.IsCanonical) :
    (repeated bounds body).IsCanonical := by
  unfold repeated
  split
  · exact isCanonical_nothing
  · exact ⟨h.chars, h.first⟩

theorem isCanonical_ofOnly {children : List Reach} (h : ∀ r ∈ children, r.IsCanonical) :
    (ofOnly children).IsCanonical := by
  unfold ofOnly
  split
  · exact h _ List.mem_cons_self
  · exact isCanonical_nothing

end Reach

/-! ## Section 2: Labels and nodes -/

/-- The sets of leaves are canonical as they are read, and all others are
    put together from them. -/
theorem Label.isCanonical_reach {label : Label} {kinds : List Label} (hsuits : label.Suits kinds)
    {children : List Reach} (h : ∀ r ∈ children, r.IsCanonical) :
    (label.reach children).IsCanonical := by
  cases hsuits with
  | leaf hleaf =>
    cases hleaf with
    | empty => exact Reach.isCanonical_nothing
    | flags => exact Reach.isCanonical_nothing
    | backreference => exact Reach.isCanonical_anything
    | recursion => exact Reach.isCanonical_anything
    | @plain _ modes hplain =>
      cases hplain with
      | literal =>
        exact Reach.isCanonical_one (modes.isCanonical_accepts (CharSet.isCanonical_single _))
      | charClass haccepts => exact Reach.isCanonical_one haccepts
      | dot =>
        refine Reach.isCanonical_one ?_
        split
        · exact CharSet.isCanonical_everything
        · exact CharSet.isCanonical_anyButNewline
      | anchor => exact Reach.isCanonical_nothing
  | group => exact Reach.isCanonical_ofOnly h
  | lookaround => exact Reach.isCanonical_nothing
  | quantifier => exact Reach.isCanonical_repeated _ (Reach.isCanonical_ofOnly h)
  | concat => exact Reach.isCanonical_sequence h
  | alternation => exact Reach.isCanonical_choice _
  | conditional =>
    show (Reach.conditional children).IsCanonical
    unfold Reach.conditional
    split <;> exact Reach.isCanonical_choice _

namespace Node

theorem IsNormal.isCanonical_reach {n : Node} (h : n.IsNormal) : n.reach.IsCanonical := by
  induction n using induction with
  | node label mark children ih =>
    obtain ⟨hsuits, hreach⟩ := h _ (mem_preorder_self _)
    rw [hreach]
    refine Label.isCanonical_reach hsuits fun r hr => ?_
    obtain ⟨child, hchild, rfl⟩ := List.mem_map.mp hr
    exact ih child hchild (h.of_mem (child_mem_preorder (n := .node label mark children) hchild))

end Node

end RegexInsight
