import Mathlib
import RegexInsight.Backtracking.Assessment
import RegexInsight.Proofs.Dialect.Automaton
import RegexInsight.Proofs.Pattern.NormalForm
import RegexInsight.Proofs.Pattern.RoundTrip
import RegexInsight.Proofs.Repetition.Follow

/-! # Flat patterns

    A pattern is flat if it is a row of leaves, some of them with a greedy
    quantifier, and the leaves are characters, classes and anchors.  Its
    widths are the sums of those in the row, it uses no construct that a
    dialect could lack, and nothing in it repeats ambiguously. -/

namespace RegexInsight

/-! ## Section 1: Widths of trees -/

namespace Shape

mutual

/-- What a tree of labels can consume. -/
def reach : Shape → Reach
  | node label children => label.reach (reaches children)

/-- What some trees can consume. -/
def reaches : List Shape → List Reach
  | [] => []
  | s :: rest => s.reach :: reaches rest

end

theorem reaches_eq_map (shapes : List Shape) : reaches shapes = shapes.map reach := by
  induction shapes with
  | nil => rfl
  | cons s rest ih => rw [reaches, ih, List.map_cons]

/-- The least widths of the items of a branch add up. -/
theorem minWidth_branch (items : List Shape) :
    (branch items).reach.minWidth = (items.map fun item => item.reach.minWidth).sum := by
  rcases items with _ | ⟨first, _ | ⟨second, rest⟩⟩
  · rfl
  · simp [branch]
  · show (Reach.sequence (reaches (first :: second :: rest))).minWidth = _
    rw [reaches_eq_map]
    show (((first :: second :: rest).map reach).map Reach.minWidth).foldr Nat.add 0 = _
    rw [List.map_map]
    rfl

/-- The greatest widths of the items of a branch add up. -/
theorem maxWidth_branch (items : List Shape) :
    (branch items).reach.maxWidth =
      Reach.sumWidths (items.map fun item => item.reach.maxWidth) := by
  rcases items with _ | ⟨first, _ | ⟨second, rest⟩⟩
  · rfl
  · cases hwidth : first.reach.maxWidth <;> simp [branch, Reach.sumWidths, hwidth]
  · show (Reach.sequence (reaches (first :: second :: rest))).maxWidth = _
    rw [reaches_eq_map]
    show Reach.sumWidths (((first :: second :: rest).map reach).map Reach.maxWidth) = _
    rw [List.map_map]
    rfl

end Shape

theorem Reach.sumWidths_map_some (widths : List Nat) :
    sumWidths (widths.map some) = some widths.sum := by
  induction widths with
  | nil => rfl
  | cons w rest ih => simp [sumWidths, ih]

/-- The reach of a normal node follows from its tree of labels. -/
theorem Node.IsNormal.reach_eq {n : Node} (h : n.IsNormal) : n.reach = n.shape.reach := by
  induction n using Node.induction with
  | node label mark children ih =>
    have hchildren : children.map Node.reach = (children.map Node.shape).map Shape.reach := by
      rw [List.map_map]
      refine List.map_congr_left fun child hchild => ?_
      exact ih child hchild (h.of_mem (Node.child_mem_preorder hchild))
    have hreach := (h _ (Node.mem_preorder_self _)).2
    rw [hreach, shape, Node.shapes_eq_map, Shape.reach, Shape.reaches_eq_map, ← hchildren]
    rfl

/-! ## Section 2: Flat trees -/

/-- Labels of leaves that every dialect knows. -/
inductive Label.IsInert : Label → Prop where
  | empty : IsInert .empty
  | literal {char : CodePoint} {accepts : CharSet} : IsInert (.literal char accepts)
  | charClass {source : Text} {accepts : CharSet} : IsInert (.charClass source .plain accepts)
  | any {accepts : CharSet} : IsInert (.any accepts)
  | anchor {kind : Anchor} : IsInert (.anchor kind)

/-- Labels in a flat tree. -/
inductive Label.IsFlat : Label → Prop where
  | inert {label : Label} (h : label.IsInert) : IsFlat label
  | greedy {bounds : Bounds} : IsFlat (.quantifier bounds .greedy)
  | concat : IsFlat .concat

theorem Label.IsInert.not_repeating {label : Label} (h : label.IsInert) :
    label.isRepeating = false := by
  cases h <;> rfl

theorem Label.IsFlat.not_alternation {label : Label} (h : label.IsFlat) :
    label.kind ≠ .alternation := by
  rcases h with ⟨⟨⟩⟩ | _ | _ <;> exact NodeKind.noConfusion

theorem Label.IsFlat.not_backreference {label : Label} (h : label.IsFlat) :
    label.kind ≠ .backreference := by
  rcases h with ⟨⟨⟩⟩ | _ | _ <;> exact NodeKind.noConfusion

namespace Shape

/-- A leaf, or a leaf with a greedy quantifier. -/
inductive IsFlatItem : Shape → Prop where
  | leaf {label : Label} (h : label.IsInert) : IsFlatItem (.node label [])
  | counted {bounds : Bounds} {label : Label} (h : label.IsInert) :
      IsFlatItem (.node (.quantifier bounds .greedy) [.node label []])

/-- An item, or items in a row. -/
inductive IsFlat : Shape → Prop where
  | item {s : Shape} (h : s.IsFlatItem) : IsFlat s
  | concat {items : List Shape} (h : ∀ item ∈ items, item.IsFlatItem) :
      IsFlat (.node .concat items)

theorem isFlat_branch {items : List Shape} (h : ∀ item ∈ items, item.IsFlatItem) :
    (branch items).IsFlat := by
  rcases items with _ | ⟨first, _ | ⟨second, rest⟩⟩
  · exact .item (.leaf .empty)
  · exact .item (h first List.mem_cons_self)
  · exact .concat h

variable {label : Label} {children : List Shape}

/-- The children of a flat tree are flat. -/
theorem IsFlat.of_child (h : (node label children).IsFlat) :
    ∀ child ∈ children, child.IsFlat := by
  intro child hchild
  cases h with
  | item hitem =>
    cases hitem with
    | leaf => exact absurd hchild List.not_mem_nil
    | counted hlabel =>
      obtain rfl := List.mem_singleton.mp hchild
      exact .item (.leaf hlabel)
  | concat hitems => exact .item (hitems child hchild)

theorem IsFlat.isFlat_label (h : (node label children).IsFlat) : label.IsFlat := by
  cases h with
  | item hitem =>
    cases hitem with
    | leaf hlabel => exact .inert hlabel
    | counted => exact .greedy
  | concat => exact .concat

/-- Below a repeating quantifier of a flat tree stands one leaf. -/
theorem IsFlat.of_repeating (h : (node label children).IsFlat)
    (hrepeating : label.isRepeating = true) :
    ∃ leaf : Label, leaf.IsInert ∧ children = [.node leaf []] := by
  cases h with
  | item hitem =>
    cases hitem with
    | leaf hlabel => exact absurd hrepeating (by simp [hlabel.not_repeating])
    | counted hlabel => exact ⟨_, hlabel, rfl⟩
  | concat => exact absurd hrepeating (by simp [Label.isRepeating])

end Shape

namespace Node

variable {root n m : Node}

theorem shape_eq (n : Node) : n.shape = .node n.label (n.children.map shape) := by
  obtain ⟨label, mark, children⟩ := n
  rw [shape, shapes_eq_map]
  rfl

/-- Everything in a flat tree is flat. -/
theorem isFlat_of_mem (h : n.shape.IsFlat) (hm : m ∈ n.preorder) : m.shape.IsFlat := by
  induction n using Node.induction with
  | node label mark children ih =>
    rw [preorder_node] at hm
    rcases List.mem_cons.mp hm with rfl | hm
    · exact h
    · obtain ⟨child, hchild, hm⟩ := List.mem_flatMap.mp hm
      rw [shape, shapes_eq_map] at h
      exact ih child hchild (h.of_child _ (List.mem_map_of_mem hchild)) hm

theorem isFlat_label_of_mem (h : n.shape.IsFlat) (hm : m ∈ n.preorder) : m.label.IsFlat := by
  have hflat := isFlat_of_mem h hm
  rw [shape_eq] at hflat
  exact hflat.isFlat_label

/-- What stands below a repeating quantifier of a flat tree is a leaf. -/
theorem isInert_of_below (h : n.shape.IsFlat) (hrepeating : n.isRepeating = true)
    (hm : n.Below m) : m.label.IsInert := by
  rw [shape_eq] at h
  obtain ⟨leaf, hleaf, hchildren⟩ := h.of_repeating hrepeating
  obtain ⟨child, hchild, hm⟩ := hm
  have hshape : child.shape = .node leaf [] := by
    have hmem := List.mem_map_of_mem (f := shape) hchild
    rw [hchildren] at hmem
    exact List.mem_singleton.mp hmem
  -- a leaf has nothing below it
  obtain ⟨label, mark, below⟩ := child
  rw [shape, shapes_eq_map] at hshape
  obtain ⟨rfl, hnil⟩ := Shape.node.inj hshape
  rw [preorder_node, List.map_eq_nil_iff.mp hnil] at hm
  obtain rfl := List.mem_singleton.mp hm
  exact hleaf

end Node

/-! ## Section 3: The profile of a flat tree -/

namespace FeatureProfile

variable {root : Node} {p : FeatureProfile}

theorem activeFlags_eq_nil_iff : p.activeFlags = [] ↔ ∀ flag, p.sets flag = false := by
  simp [activeFlags, List.filter_eq_nil_iff, FeatureFlag.mem_all]

/-- A flat tree sets no flag. -/
theorem sets_of_isFlat (h : root.shape.IsFlat) (flag : FeatureFlag) :
    (ofNode root).sets flag = false := by
  have hlabel : ∀ v ∈ root.visits, v.node.label.IsFlat := fun v hv =>
    Node.isFlat_label_of_mem h (List.mem_map_of_mem hv)
  -- a test that fails on every flat label finds no node
  have hnone : ∀ {test : Node → Bool},
      (∀ label mark children, label.IsFlat → test (.node label mark children) = false) →
      (root.visits.map Visit.node).any test = false := by
    intro test htest
    rw [List.any_map, List.any_eq_false]
    rintro ⟨⟨label, mark, children⟩, path⟩ hv
    simpa using htest label mark children (hlabel _ hv)
  cases flag with
  | namedGroupSpelling =>
    show (!((root.visits.map Visit.node).filterMap spelling?).isEmpty) = false
    rw [Bool.not_eq_false', List.isEmpty_iff, List.filterMap_map, List.filterMap_eq_nil_iff]
    rintro ⟨⟨label, mark, children⟩, path⟩ hv
    have hflat : label.IsFlat := hlabel _ hv
    rcases hflat with ⟨⟨⟩⟩ | _ | _ <;> rfl
  | backreferenceInLookaround =>
    refine List.any_eq_false.mpr fun v hv => ?_
    have hkind : ¬ v.node.kind = .backreference := (hlabel v hv).not_backreference
    simp [hkind]
  | _ => exact hnone fun label mark children hflat => by rcases hflat with ⟨⟨⟩⟩ | _ | _ <;> rfl

end FeatureProfile

theorem Dialect.judge_of_activeFlags {d : Dialect} {p : FeatureProfile} (h : p.activeFlags = []) :
    d.judge p = .supported := by
  refine judge_eq_supported_iff.mpr fun flag hset => ?_
  rw [FeatureProfile.activeFlags_eq_nil_iff.mp h flag] at hset
  exact Bool.noConfusion hset

theorem selectEngine_of_activeFlags {root : Node}
    (h : (FeatureProfile.ofNode root).activeFlags = []) :
    selectEngine (.ofNode root) = .linearTime := by
  rw [selectEngine_eq_linearTime_iff]
  intro hchoice
  obtain ⟨flag, -, hset⟩ := exists_automatonUnsupported hchoice
  rw [FeatureProfile.activeFlags_eq_nil_iff.mp h flag] at hset
  exact Bool.noConfusion hset

/-! ## Section 4: Repetition in a flat tree -/

section Repetition

variable {root : Node} {v a : Visit}

/-- What a repeating quantifier encloses is a leaf. -/
theorem isInert_of_enclosing (h : root.shape.IsFlat) (hv : v ∈ root.visits)
    (ha : v.enclosing? = some a) : v.node.label.IsInert := by
  obtain ⟨hrepeating, way, last, hpath, hlast, -⟩ := Visit.exists_way_of_enclosing ha
  have hleads := Node.mem_visits.mp hv
  rw [hpath] at hleads
  obtain ⟨habove, hbelow⟩ := hleads.through
  rw [hlast] at habove hbelow
  have hflat := Node.isFlat_of_mem h (Node.mem_preorder.mpr ⟨_, habove⟩)
  exact Node.isInert_of_below hflat hrepeating (Node.below_iff.mpr ⟨last, way, hbelow⟩)

/-- No repeating quantifier of a flat tree is nested. -/
theorem depth_of_isFlat (h : root.shape.IsFlat) (hv : v ∈ root.visits)
    (hrepeating : v.node.isRepeating = true) : v.depth = 1 := by
  refine Visit.depth_of_not_nests fun a ha _ => ?_
  have hnot := (isInert_of_enclosing h hv ha).not_repeating
  exact absurd hrepeating (Bool.not_eq_true _ ▸ hnot)

/-- Nothing in a flat tree is ambiguous. -/
theorem staticScore_of_isFlat (h : root.shape.IsFlat) :
    (FeatureProfile.ofNode root).staticScore = 0 := by
  have hdepth : (scanRepetition root).depth ≤ 1 := by
    rw [depth_scanRepetition]
    cases hmax : ((root.visits.filter fun q => q.node.isRepeating).map Visit.depth).max? with
    | none => exact Nat.zero_le 1
    | some depth =>
      obtain ⟨q, hq, rfl⟩ := List.mem_map.mp (List.max?_mem hmax)
      obtain ⟨hv, hrepeating⟩ := List.mem_filter.mp hq
      exact Nat.le_of_eq (depth_of_isFlat h hv hrepeating)
  -- only an alternation can overlap
  have hoverlapping : (scanRepetition root).overlapping = false := by
    refine Bool.eq_false_iff.mpr fun hfound => ?_
    obtain ⟨x, hx, a, -, hkind, -⟩ := overlapping_scanRepetition.mp hfound
    exact (Node.isFlat_label_of_mem h (List.mem_map_of_mem hx)).not_alternation hkind
  show riskScore (scanRepetition root).depth (scanRepetition root).overlapping = 0
  rw [hoverlapping, riskScore, Nat.sub_eq_zero_of_le hdepth]
  rfl

end Repetition

end RegexInsight
