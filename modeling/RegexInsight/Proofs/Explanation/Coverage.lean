import Mathlib
import RegexInsight.Explanation.Summary
import RegexInsight.Proofs.Explanation.Assembly
import RegexInsight.Proofs.Explanation.QuantifierText
import RegexInsight.Proofs.Pattern.GroupOrder

/-! # What an explanation covers

    A walk over an explanation comes to the nodes of the tree in pattern
    order.  Each node shows one part, the branches of an alternation or a
    conditional show one more, and three kinds of nodes show none: nothing,
    a concatenation, which is dissolved, and a quantifier, which is a mark
    on the part of its operand.  That the operand has a part to put the
    mark on is what the normal form of the tree is needed for. -/

namespace RegexInsight

/-! ## Section 1: What a walk should show -/

/-- What a walk shows of a part, apart from the words for it. -/
structure Shown where
  depth : Nat
  kind : PartKind
  token : Text
  quantifier : Option Text
  group : Option Nat
  deriving DecidableEq, Repr

/-- What an entry of a walk shows. -/
def Shown.of (entry : Nat × Part) : Shown :=
  ⟨entry.1, entry.2.kind, entry.2.token, entry.2.quantifier, entry.2.group⟩

/-- What the part for a class is, from the text of the class. -/
def classKind (source : Text) (traits : ClassTraits) : PartKind :=
  if source.head? = some '[' then .characterClass
  else if traits.unicodeProperty then .unicodeClass
  else .shorthandClass

/-- Groups that capture. -/
def PartKind.isCapturing : PartKind → Bool
  | capturingGroup => true
  | namedGroup => true
  | _ => false

namespace Label

/-- The kind of the part for a node, if it has one of its own. -/
def partKind? : Label → Option PartKind
  | empty => none
  | concat => none
  | quantifier .. => none
  | literal .. => some .literal
  | any _ => some .anyChar
  | anchor _ => some .anchor
  | charClass source traits _ => some (classKind source traits)
  | flags _ => some .flags
  | backreference _ => some .backreference
  | recursion _ => some .recursion
  | group (.capturing _) => some .capturingGroup
  | group (.named ..) => some .namedGroup
  | group (.nonCapturing _) => some .nonCapturingGroup
  | group .atomic => some .atomicGroup
  | lookaround .ahead _ => some .lookahead
  | lookaround .behind _ => some .lookbehind
  | alternation => some .alternation
  | conditional _ => some .conditional

theorem partKind?_ne_repetition (label : Label) : label.partKind? ≠ some .repetition := by
  cases label with
  | charClass source traits =>
    simp only [partKind?, classKind]
    split
    next => exact nofun
    next => split <;> exact nofun
  | group kind => cases kind <;> exact nofun
  | lookaround direction => cases direction <;> exact nofun
  | _ => exact nofun

/-- The children of the node are branches. -/
def hasBranches : Label → Bool
  | alternation => true
  | conditional _ => true
  | _ => false

/-- How much deeper than its own part the parts below a node are. -/
def nesting : Label → Nat
  | group _ => 1
  | lookaround .. => 1
  | alternation => 2
  | conditional _ => 2
  | _ => 0

/-- The number of a group, or of the group that is referred to. -/
def shownGroup (names : List (Text × Nat)) : Label → Option Nat
  | group kind => kind.index?
  | backreference target => referredGroup names target
  | _ => none

end Label

/-- The depth of the parts below some ancestors. -/
def depthBelow (above : List Node) : Nat :=
  (above.map fun a => a.label.nesting).sum

theorem depthBelow_cons (n : Node) (above : List Node) :
    depthBelow (n :: above) = depthBelow above + n.label.nesting := by
  rw [depthBelow, List.map_cons, List.sum_cons, Nat.add_comm]
  rfl

namespace Pattern

/-- The text of the quantifier right above a node. -/
def quantifierOver? (p : Pattern) : List Node → Option Text
  | [] => none
  | parent :: _ =>
    if parent.label.isQuantifier then some (p.quantifierText parent) else none

/-- The part for a node as a branch of its parent. -/
def shownBranch (p : Pattern) (n : Node) : List Node → List Shown
  | [] => []
  | parent :: above =>
    if parent.label.hasBranches then
      [⟨depthBelow above + 1, .branch, p.textOf n, none, none⟩]
    else []

/-- The part of a node with a quantifier on it. -/
def shownPart (p : Pattern) (n : Node) (above : List Node) (quantifier : Option Text) :
    List Shown :=
  n.label.partKind?.toList.map fun kind =>
    ⟨depthBelow above, kind, p.textOf n ++ quantifier.getD [], quantifier,
      n.label.shownGroup p.groupNames⟩

/-- What a walk should show when it comes to a node below some ancestors. -/
def shownAt (p : Pattern) (above : List Node) (n : Node) : List Shown :=
  p.shownBranch n above ++ p.shownPart n above (p.quantifierOver? above)

end Pattern

/-! ## Section 2: Nodes with their ancestors -/

/-- The ancestors of the visited node and the node. -/
def Visit.lineage (v : Visit) : List Node × Node :=
  (v.ancestors, v.node)

namespace Node

/-- All nodes with their ancestors in pattern order, below some nodes. -/
def lineages (above : List Node) (n : Node) : List (List Node × Node) :=
  (n.visitsFrom (above.map fun a => ⟨a, [], []⟩)).map Visit.lineage

/-- The siblings on the way down are no part of a lineage. -/
theorem map_lineage_visitsFrom {path path' : List Step} (n : Node)
    (h : path.map Step.parent = path'.map Step.parent) :
    (n.visitsFrom path).map Visit.lineage = (n.visitsFrom path').map Visit.lineage := by
  induction n using induction generalizing path path' with
  | node label mark children ih =>
    have hof : ∀ parent before before' rest, (∀ child ∈ rest, child ∈ children) →
        (visitsOf parent path before rest).map Visit.lineage =
          (visitsOf parent path' before' rest).map Visit.lineage := by
      intro parent before before' rest
      induction rest generalizing before before' with
      | nil => intro _; rfl
      | cons child rest ihrest =>
        intro hsub
        simp only [visitsOf, List.map_append]
        rw [ihrest _ (child :: before') fun other hother => hsub other (List.mem_cons_of_mem _ hother)]
        refine congrArg (· ++ _) (ih child (hsub child List.mem_cons_self) ?_)
        exact congrArg (parent :: ·) h
    simp only [visitsFrom, List.map_cons, Visit.lineage, Visit.ancestors, h]
    exact congrArg _ (hof _ _ _ children fun _ hchild => hchild)

theorem lineages_node (above : List Node) (label : Label) (mark : Mark) (children : List Node) :
    (node label mark children).lineages above = (above, node label mark children) ::
      children.flatMap (lineages (node label mark children :: above)) := by
  have hof : ∀ parent before rest,
      (visitsOf parent (above.map fun a => ⟨a, [], []⟩) before rest).map Visit.lineage =
        rest.flatMap (lineages (parent :: above)) := by
    intro parent before rest
    induction rest generalizing before with
    | nil => rfl
    | cons child rest ih =>
      simp only [visitsOf, List.map_append, List.flatMap_cons, ih]
      exact congrArg (· ++ _) (map_lineage_visitsFrom child rfl)
  simp only [lineages, visitsFrom, List.map_cons, hof]
  refine congrArg (· :: _) (Prod.ext ?_ rfl)
  simp [Visit.lineage, Visit.ancestors, Function.comp_def]

end Node

/-! ## Section 3: Walks over parts -/

/-- What a walk over some parts shows. -/
def shownParts (depth : Nat) (parts : List Part) : List Shown :=
  (Part.walkEach depth parts).map Shown.of

section Parts

variable {depth : Nat}

theorem shownParts_append (parts others : List Part) :
    shownParts depth (parts ++ others) = shownParts depth parts ++ shownParts depth others := by
  induction parts with
  | nil => rfl
  | cons part rest ih =>
    simp only [shownParts, List.cons_append, Part.walkEach, List.map_append, List.append_assoc]
      at ih ⊢
    rw [ih]

theorem shownParts_flatten (bodies : List (List Part)) :
    shownParts depth bodies.flatten = bodies.flatMap (shownParts depth) := by
  induction bodies with
  | nil => rfl
  | cons body rest ih => rw [List.flatten_cons, shownParts_append, ih, List.flatMap_cons]

theorem shownParts_cons (part : Part) (rest : List Part) :
    shownParts depth (part :: rest) =
      .of (depth, part) :: shownParts (depth + 1) part.children ++ shownParts depth rest := by
  obtain ⟨kind, token, description, quantifier, group, children⟩ := part
  simp only [shownParts, Part.walkEach, Part.walkFrom, List.map_append, List.map_cons]

theorem shownParts_singleton (part : Part) :
    shownParts depth [part] = .of (depth, part) :: shownParts (depth + 1) part.children := by
  rw [shownParts_cons]
  exact List.append_nil _

/-- Every branch shows itself and what it contains. -/
theorem shownParts_branchParts (describe : Nat → String) (nodes : List Node) (token : Node → Text)
    (body : Node → List Part) :
    shownParts depth (branchParts describe (nodes.map token) (nodes.map body)) =
      nodes.flatMap fun n =>
        ⟨depth, .branch, token n, none, none⟩ :: shownParts (depth + 1) (body n) := by
  have hindexed : ∀ entries : List ((Text × List Part) × Nat),
      shownParts depth (entries.map fun entry =>
        .around .branch entry.1.1 (describe entry.2) entry.1.2) =
      (entries.map Prod.fst).flatMap fun entry =>
        ⟨depth, .branch, entry.1, none, none⟩ :: shownParts (depth + 1) entry.2 := by
    intro entries
    induction entries with
    | nil => rfl
    | cons entry rest ih =>
      rw [List.map_cons, shownParts_cons, ih]
      rfl
  refine (hindexed _).trans ?_
  rw [List.zipIdx_map_fst, List.zip_map', List.flatMap_map]

end Parts

/-! ## Section 4: The parts of a tree -/

/-- Nothing stands below a node whose part has no body. -/
theorem Label.Suits.eq_nil {label : Label} {below : List Label} (h : label.Suits below)
    (hpart : label.partKind?.isSome = true) (hnesting : label.nesting = 0) : below = [] := by
  cases h with
  | leaf => rfl
  | quantifier => exact nomatch hpart
  | concat => exact nomatch hpart
  | group => exact nomatch hnesting
  | lookaround => exact nomatch hnesting
  | alternation => exact nomatch hnesting
  | conditional => exact nomatch hnesting

theorem Label.exists_of_isQuantifier {label : Label} (h : label.isQuantifier = true) :
    ∃ bounds mode, label = .quantifier bounds mode := by
  cases label with
  | quantifier bounds mode => exact ⟨bounds, mode, rfl⟩
  | _ => exact nomatch h

/-- What a quantifier can stand over has a part of its own. -/
theorem Label.exists_partKind? {label : Label} (h : label.isOperand = true) :
    ∃ kind, label.partKind? = some kind := by
  cases label with
  | empty => exact nomatch h
  | concat => exact nomatch h
  | quantifier => exact nomatch h
  | group kind => cases kind <;> exact ⟨_, rfl⟩
  | lookaround direction => cases direction <;> exact ⟨_, rfl⟩
  | _ => exact ⟨_, rfl⟩

namespace Pattern

variable {p : Pattern} {n child : Node} {above : List Node}

/-- What a walk should show of a node and everything below it. -/
def shownFrom (p : Pattern) (above : List Node) (n : Node) : List Shown :=
  (n.lineages above).flatMap fun lineage => p.shownAt lineage.1 lineage.2

/-- What a walk should show of everything below a node. -/
def shownBelow (p : Pattern) (above : List Node) (n : Node) : List Shown :=
  n.children.flatMap (p.shownFrom (n :: above))

theorem shownFrom_eq (p : Pattern) (above : List Node) (n : Node) :
    p.shownFrom above n = p.shownBranch n above ++
      (p.shownPart n above (p.quantifierOver? above) ++ p.shownBelow above n) := by
  obtain ⟨label, mark, children⟩ := n
  rw [shownFrom, Node.lineages_node, List.flatMap_cons, List.flatMap_assoc, shownAt,
    List.append_assoc]
  rfl

theorem shownFrom_root (p : Pattern) :
    p.shownFrom [] p.root = p.root.visits.flatMap fun v => p.shownAt v.ancestors v.node := by
  rw [shownFrom, Node.lineages, List.flatMap_map]
  rfl

/-- Below most nodes a child shows its own part and what is below it. -/
theorem shownFrom_child (hbranches : n.label.hasBranches = false)
    (hquantifier : n.label.isQuantifier = false) :
    p.shownFrom (n :: above) child =
      p.shownPart child (n :: above) none ++ p.shownBelow (n :: above) child := by
  rw [shownFrom_eq, shownBranch, quantifierOver?, hbranches, hquantifier]
  rfl

/-- What is inside the part of a node, from the parts of its children. -/
def bodyParts (p : Pattern) (n : Node) (bodies : List (List Part)) : List Part :=
  match n.label with
  | .group _ => bodies.flatten
  | .lookaround .. => bodies.flatten
  | .alternation => branchParts (fun _ => "Alternative branch") (n.children.map p.textOf) bodies
  | .conditional _ => branchParts describeCondition (n.children.map p.textOf) bodies
  | _ => []

theorem exists_classPart (token source : Text) (traits : ClassTraits) : ∃ description,
    classPart token source traits = .leaf (classKind source traits) token description := by
  unfold classPart classKind
  split
  next => exact ⟨_, rfl⟩
  next => split <;> exact ⟨_, rfl⟩

/-- A node with a part of its own has no other. -/
theorem exists_partsOf {kind : PartKind} (h : n.label.partKind? = some kind)
    (bodies : List (List Part)) : ∃ description, partsOf p n bodies =
      [⟨kind, p.textOf n, description, none, n.label.shownGroup p.groupNames,
        p.bodyParts n bodies⟩] := by
  obtain ⟨label, mark, children⟩ := n
  cases label with
  | empty => exact nomatch h
  | concat => exact nomatch h
  | quantifier => exact nomatch h
  | charClass source traits =>
    obtain ⟨description, hpart⟩ := exists_classPart (p.textOf (.node _ mark children)) source traits
    obtain rfl := Option.some.inj h
    exact ⟨description, congrArg (fun part => [part]) hpart⟩
  | group kind =>
    cases kind with
    | nonCapturing flags => cases flags <;> exact Option.some.inj h ▸ ⟨_, rfl⟩
    | _ => exact Option.some.inj h ▸ ⟨_, rfl⟩
  | lookaround direction =>
    cases direction <;> exact Option.some.inj h ▸ ⟨_, rfl⟩
  | _ => exact Option.some.inj h ▸ ⟨_, rfl⟩

section Bodies

variable (hbelow : ∀ child ∈ n.children,
  shownParts (depthBelow (n :: above)) (explainNode p child) =
    p.shownPart child (n :: above) none ++ p.shownBelow (n :: above) child)

include hbelow

/-- The parts of the children, one after the other. -/
theorem shownParts_bodies (hbranches : n.label.hasBranches = false)
    (hquantifier : n.label.isQuantifier = false) :
    shownParts (depthBelow (n :: above)) (n.children.map (explainNode p)).flatten =
      p.shownBelow above n := by
  rw [shownParts_flatten, List.flatMap_map]
  refine List.flatMap_congr fun child hchild => ?_
  rw [hbelow child hchild, shownFrom_child hbranches hquantifier]

/-- The parts of the children, each in a branch of its own. -/
theorem shownParts_branches (hbranches : n.label.hasBranches = true)
    (describe : Nat → String) :
    shownParts (depthBelow above + 1)
        (branchParts describe (n.children.map p.textOf) (n.children.map (explainNode p))) =
      p.shownBelow above n := by
  have hlabel : n.label.isQuantifier = false ∧ n.label.nesting = 2 := by
    cases h : n.label <;> simp_all [Label.hasBranches, Label.isQuantifier, Label.nesting]
  have hdepth : depthBelow (n :: above) = depthBelow above + 1 + 1 := by
    rw [depthBelow_cons, hlabel.2]
  rw [shownParts_branchParts, ← hdepth]
  refine List.flatMap_congr fun child hchild => ?_
  rw [hbelow child hchild, shownFrom_eq, shownBranch, if_pos hbranches, quantifierOver?, hlabel.1]
  rfl

/-- A part shows its node, and what is inside it what stands below. -/
theorem shownParts_of_partKind? (hsuits : n.label.Suits (n.children.map Node.label))
    {kind : PartKind} (hkind : n.label.partKind? = some kind) :
    shownParts (depthBelow above) (explainNode p n) =
      p.shownPart n above none ++ p.shownBelow above n := by
  -- by the label: parts with bodies show them, the others have no children
  have hinside : shownParts (depthBelow above + 1)
      (p.bodyParts n (n.children.map (explainNode p))) = p.shownBelow above n := by
    have hbodies := shownParts_bodies hbelow
    rw [depthBelow_cons] at hbodies
    rw [bodyParts]
    cases hlabel : n.label with
    | group kind =>
      rw [hlabel] at hbodies
      exact hbodies rfl rfl
    | lookaround direction negated =>
      rw [hlabel] at hbodies
      exact hbodies rfl rfl
    | alternation => exact shownParts_branches hbelow (hlabel ▸ rfl) _
    | conditional condition => exact shownParts_branches hbelow (hlabel ▸ rfl) _
    | _ =>
      have hnone : n.children = [] :=
        List.map_eq_nil_iff.mp (hsuits.eq_nil (hkind ▸ rfl) (by rw [hlabel]; rfl))
      rw [shownBelow, hnone]
      rfl
  obtain ⟨description, hparts⟩ := p.exists_partsOf hkind (n.children.map (explainNode p))
  rw [explainNode_eq, hparts, shownParts_singleton, hinside, shownPart, hkind]
  simp [Shown.of]

/-- A quantifier shows nothing but its mark on the part of its operand. -/
theorem shownParts_of_quantifier {bounds : Bounds} {mode : QuantifierMode} {operand : Node}
    (hlabel : n.label = .quantifier bounds mode) (hchildren : n.children = [operand])
    (hoperand : operand.label.isOperand = true) :
    shownParts (depthBelow above) (explainNode p n) =
      p.shownPart n above none ++ p.shownBelow above n := by
  obtain ⟨kind, hkind⟩ := Label.exists_partKind? hoperand
  obtain ⟨description, hpart⟩ :=
    p.exists_partsOf hkind (operand.children.map (explainNode p))
  rw [← explainNode_eq] at hpart
  have hmarked : ∃ description, explainNode p n =
      [⟨kind, p.textOf operand ++ p.quantifierText n, description, some (p.quantifierText n),
        operand.label.shownGroup p.groupNames,
        p.bodyParts operand (operand.children.map (explainNode p))⟩] := by
    rw [explainNode_eq, hchildren, partsOf, hlabel]
    simp only [List.map_cons, List.map_nil, List.flatten_singleton, hpart, quantified]
    exact ⟨_, by rw [quantifierText, hchildren]; rfl⟩
  obtain ⟨description', hmarked⟩ := hmarked
  have hdepth : depthBelow (n :: above) = depthBelow above := by
    rw [depthBelow_cons, hlabel]
    rfl
  have hshown : ∀ quantifier, p.shownPart operand (n :: above) quantifier =
      [⟨depthBelow above, kind, p.textOf operand ++ quantifier.getD [], quantifier,
        operand.label.shownGroup p.groupNames⟩] := by
    intro quantifier
    rw [shownPart, hkind, hdepth]
    rfl
  -- what is inside the part does not change
  have hinside : shownParts (depthBelow above + 1)
      (p.bodyParts operand (operand.children.map (explainNode p))) =
        p.shownBelow (n :: above) operand := by
    have hplain := hbelow operand (hchildren ▸ List.mem_cons_self)
    rw [hdepth, hpart, shownParts_singleton, hshown] at hplain
    exact (List.cons.inj hplain).2
  calc shownParts (depthBelow above) (explainNode p n)
      = p.shownPart operand (n :: above) (some (p.quantifierText n)) ++
          p.shownBelow (n :: above) operand := by
        rw [hmarked, shownParts_singleton, hshown]
        exact congrArg (_ :: ·) hinside
    _ = p.shownFrom (n :: above) operand := by
        rw [shownFrom_eq, shownBranch, quantifierOver?, hlabel]
        rfl
    _ = p.shownPart n above none ++ p.shownBelow above n := by
        rw [shownPart, hlabel, shownBelow, hchildren, List.flatMap_singleton]
        rfl

end Bodies

/-- The parts of a tree in normal form show each of its nodes, in pattern
    order. -/
theorem shownParts_explainNode (hnormal : n.IsNormal) (above : List Node) :
    shownParts (depthBelow above) (explainNode p n) =
      p.shownPart n above none ++ p.shownBelow above n := by
  induction n using Node.induction generalizing above with
  | node label mark children ih =>
    have hsuits := (hnormal _ (Node.mem_preorder_self _)).1
    have hbelow : ∀ child ∈ children,
        shownParts (depthBelow (.node label mark children :: above)) (explainNode p child) =
          p.shownPart child (.node label mark children :: above) none ++
            p.shownBelow (.node label mark children :: above) child := by
      intro child hchild
      have hmem : child ∈ (Node.node label mark children).preorder :=
        Node.child_mem_preorder (n := .node label mark children) hchild
      exact ih child hchild (hnormal.of_mem hmem) _
    -- a node that is no part of its own passes its children on
    cases hkind : label.partKind? with
    | some kind =>
      exact shownParts_of_partKind? (n := .node label mark children) hbelow hsuits hkind
    | none =>
      cases label with
      | empty =>
        generalize hlabels : (Node.node .empty mark children).children.map Node.label = labels
          at hsuits
        cases hsuits
        obtain rfl : children = [] := List.map_eq_nil_iff.mp hlabels
        rfl
      | concat =>
        have hbodies := shownParts_bodies (n := .node .concat mark children) hbelow rfl rfl
        rw [depthBelow_cons] at hbodies
        rw [explainNode_eq]
        exact hbodies
      | quantifier bounds mode =>
        obtain ⟨-, operand, hlabels, hoperand⟩ := hsuits.exists_operand
        obtain ⟨child, hchildren, rfl⟩ := List.map_eq_singleton_iff.mp hlabels
        exact shownParts_of_quantifier hbelow rfl hchildren hoperand
      | group kind => cases kind <;> exact nomatch hkind
      | lookaround direction => cases direction <;> exact nomatch hkind
      | _ => exact nomatch hkind

/-! ## Section 5: What a walk shows -/

/-- The walk over an explanation shows the nodes that a walk over the tree
    visits. -/
theorem map_of_walk (hnormal : p.root.IsNormal) :
    p.explain.walk.map Shown.of = p.shownFrom [] p.root := by
  have hparts := shownParts_explainNode (p := p) hnormal []
  rw [shownFrom_eq]
  exact hparts

/-- A node that is shown as a branch is shown as nothing else there. -/
theorem kind_of_mem_shownBranch {shown : Shown} (h : shown ∈ p.shownBranch n above) :
    shown.kind = .branch ∧ shown.quantifier = none := by
  cases above with
  | nil => exact absurd h List.not_mem_nil
  | cons parent above =>
    rw [shownBranch] at h
    split at h
    next => exact List.mem_singleton.mp h ▸ ⟨rfl, rfl⟩
    next => exact absurd h List.not_mem_nil

/-- No node shows a quantifier apart from its operand. -/
theorem kind_ne_repetition {shown : Shown} (h : shown ∈ p.shownAt above n) :
    shown.kind ≠ .repetition := by
  rcases List.mem_append.mp h with hbranch | hpart
  · rw [(kind_of_mem_shownBranch hbranch).1]
    exact nofun
  · obtain ⟨kind, hkind, rfl⟩ := List.mem_map.mp hpart
    have hkind : n.label.partKind? = some kind := Option.mem_toList.mp hkind
    rintro rfl
    exact n.label.partKind?_ne_repetition hkind

/-- A node shows the number that it captures under. -/
theorem captured_shownAt (p : Pattern) (above : List Node) (n : Node) :
    ((p.shownAt above n).filter fun shown => shown.kind.isCapturing).map Shown.group =
      (n.label.groupKind?.bind GroupKind.index?).toList.map some := by
  have hbranch : (p.shownBranch n above).filter (fun shown => shown.kind.isCapturing) = [] := by
    refine List.filter_eq_nil_iff.mpr fun shown hshown => ?_
    rw [(kind_of_mem_shownBranch hshown).1]
    exact nofun
  rw [shownAt, List.filter_append, hbranch, List.nil_append, shownPart]
  generalize p.quantifierOver? above = quantifier
  cases n.label with
  | charClass source traits =>
    have hkind : (classKind source traits).isCapturing = false := by
      unfold classKind
      split
      next => rfl
      next => split <;> rfl
    simp [Label.partKind?, hkind, Label.groupKind?]
  | group kind => cases kind <;> rfl
  | lookaround direction => cases direction <;> rfl
  | _ => rfl

/-- The walk comes to the groups in the order of their numbers. -/
theorem captured_walk {text : Text} (h : parse text = .ok p) :
    ((p.explain.walk.map Shown.of).filter fun shown => shown.kind.isCapturing).map Shown.group =
      (List.range' 1 p.groupCount).map some := by
  have hnumbers : p.root.groupKinds.filterMap GroupKind.index? =
      p.root.visits.flatMap fun v => (v.node.label.groupKind?.bind GroupKind.index?).toList := by
    rw [Node.groupKinds, List.filterMap_filterMap, Node.preorder, List.filterMap_map,
      List.filterMap_eq_flatMap_toList]
    rfl
  rw [map_of_walk (isNormal_of_parse h), shownFrom_root, List.filter_flatMap, List.map_flatMap,
    ← (groupKinds_of_parse h).1, hnumbers, List.map_flatMap]
  simp only [captured_shownAt]

/-- The texts of the quantifiers in a tree, in pattern order. -/
def quantifierTexts (p : Pattern) (n : Node) : List Text :=
  (n.preorder.filter fun m => m.label.isQuantifier).map p.quantifierText

theorem quantifierTexts_eq (p : Pattern) (n : Node) : p.quantifierTexts n =
    (p.quantifierOver? [n]).toList ++ n.children.flatMap p.quantifierTexts := by
  obtain ⟨label, mark, children⟩ := n
  rw [quantifierTexts, Node.preorder_node, List.filter_cons, List.filter_flatMap, quantifierOver?]
  split
  next => rw [List.map_cons, List.map_flatMap]; rfl
  next => rw [List.map_flatMap]; rfl

theorem quantifiers_shownBranch (p : Pattern) (n : Node) (above : List Node) :
    (p.shownBranch n above).filterMap Shown.quantifier = [] :=
  List.filterMap_eq_nil_iff.mpr fun _ hshown => (kind_of_mem_shownBranch hshown).2

/-- Every quantifier is shown once, on the part of its operand. -/
theorem quantifiers_shownFrom (hnormal : n.IsNormal)
    (hplace : p.quantifierOver? above = none ∨ n.label.isOperand = true) :
    (p.shownFrom above n).filterMap Shown.quantifier =
      (p.quantifierOver? above).toList ++ p.quantifierTexts n := by
  induction n using Node.induction generalizing above with
  | node label mark children ih =>
    have hsuits := (hnormal _ (Node.mem_preorder_self _)).1
    have hpart : (p.shownPart (.node label mark children) above (p.quantifierOver? above)).filterMap
        Shown.quantifier = (p.quantifierOver? above).toList := by
      rcases hplace with hnone | hoperand
      · rw [hnone, shownPart]
        cases (Node.node label mark children).label.partKind? <;> rfl
      · obtain ⟨kind, hkind⟩ := Label.exists_partKind? hoperand
        rw [shownPart, hkind]
        cases p.quantifierOver? above <;> rfl
    have hchild : ∀ child ∈ children, p.quantifierOver? [.node label mark children] = none ∨
        child.label.isOperand = true →
        (p.shownFrom (.node label mark children :: above) child).filterMap Shown.quantifier =
          (p.quantifierOver? [.node label mark children]).toList ++ p.quantifierTexts child := by
      intro child hchild hplace
      have hmem : child ∈ (Node.node label mark children).preorder :=
        Node.child_mem_preorder (n := .node label mark children) hchild
      exact ih child hchild (hnormal.of_mem hmem) hplace
    have hbelow : (p.shownBelow above (.node label mark children)).filterMap Shown.quantifier =
        (p.quantifierOver? [.node label mark children]).toList ++
          children.flatMap p.quantifierTexts := by
      rw [shownBelow, List.filterMap_flatMap]
      cases hquantifier : label.isQuantifier with
      | false =>
        have hnone : p.quantifierOver? [.node label mark children] = none :=
          if_neg (Bool.eq_false_iff.mp hquantifier)
        rw [hnone] at hchild ⊢
        exact List.flatMap_congr fun child hmem => hchild child hmem (.inl rfl)
      | true =>
        -- the only child is the operand
        obtain ⟨bounds, mode, rfl⟩ := Label.exists_of_isQuantifier hquantifier
        obtain ⟨-, operand, hlabels, hoperand⟩ := hsuits.exists_operand
        obtain ⟨child, hchildren, rfl⟩ := List.map_eq_singleton_iff.mp hlabels
        obtain rfl : children = [child] := hchildren
        show [child].flatMap _ = _
        rw [List.flatMap_singleton, List.flatMap_singleton]
        exact hchild child List.mem_cons_self (.inr hoperand)
    rw [shownFrom_eq, List.filterMap_append, List.filterMap_append, quantifiers_shownBranch, hpart,
      List.nil_append, quantifierTexts_eq, hbelow]
    rfl

end Pattern

/-! ## Section 6: Nothing lost, nothing twice -/

/-- An explanation that covers a pattern. -/
structure Explanation.Covers (e : Explanation) (p : Pattern) : Prop where
  /-- The walk comes to the nodes in pattern order. -/
  shown : e.walk.map Shown.of = p.root.visits.flatMap fun v => p.shownAt v.ancestors v.node
  /-- No quantifier stands apart from its operand. -/
  folded : ∀ entry ∈ e.walk, entry.2.kind ≠ .repetition
  quantifiers : (e.walk.map Shown.of).filterMap Shown.quantifier = p.quantifierTexts p.root
  captured : ((e.walk.map Shown.of).filter fun shown => shown.kind.isCapturing).map Shown.group =
    (List.range' 1 p.groupCount).map some

namespace Pattern

theorem covers_of_parse {text : Text} {p : Pattern} (h : parse text = .ok p) :
    p.explain.Covers p where
  shown := (map_of_walk (isNormal_of_parse h)).trans p.shownFrom_root
  folded entry hentry := by
    have hshown : Shown.of entry ∈ p.explain.walk.map Shown.of := List.mem_map_of_mem hentry
    rw [map_of_walk (isNormal_of_parse h), shownFrom_root] at hshown
    obtain ⟨v, -, hv⟩ := List.mem_flatMap.mp hshown
    exact kind_ne_repetition hv
  quantifiers := by
    rw [map_of_walk (isNormal_of_parse h)]
    exact quantifiers_shownFrom (isNormal_of_parse h) (.inl rfl)
  captured := captured_walk h

/-- The explanation of a pattern can be assembled from the table of its
    nodes, where parts are moved and never copied, and a walk over it shows
    every node of the tree once: no part is lost, and none comes twice. -/
theorem explain_covers {text : Text} {p : Pattern} (h : parse text = .ok p) :
    p.assemble? = some p.explain.parts ∧ p.explain.Covers p := by
  obtain ⟨count, hnumbered⟩ := numbered_of_parse h
  exact ⟨assemble?_eq hnumbered (isNormal_of_parse h), covers_of_parse h⟩

/-- The quantifiers on `b` and on the group leave no part of their own. -/
theorem explain_covers_of_repeated :
    ∃ p, parse "(a|b+)?".toList = .ok p ∧ p.assemble? = some p.explain.parts ∧
      p.explain.Covers p ∧ p.explain.walk.map (fun entry => (entry.1, entry.2.kind)) =
        [(0, .capturingGroup), (1, .alternation), (2, .branch), (3, .literal), (2, .branch),
          (3, .literal)] := by
  have hcheck : (parse "(a|b+)?".toList).toOption.any (fun p =>
      p.explain.walk.map (fun entry => (entry.1, entry.2.kind)) ==
        [(0, .capturingGroup), (1, .alternation), (2, .branch), (3, .literal), (2, .branch),
          (3, .literal)]) = true := by decide +kernel
  obtain ⟨p, hp, hkinds⟩ := exists_of_check hcheck
  obtain ⟨hassembled, hcovers⟩ := explain_covers hp
  exact ⟨p, hp, hassembled, hcovers, eq_of_beq hkinds⟩

end Pattern

end RegexInsight
