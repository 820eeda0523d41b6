import Mathlib
import RegexInsight.Proofs.Pattern.Numbering

/-! # Normal form

    The tree of a pattern has no needless node: a branch of one item is the
    item itself, a body of one branch is the branch itself, and a
    quantifier stands over one thing that can be repeated.  `Suits` lists
    the children that each kind of node can have.  Every node of a parsed
    pattern has such children, and its reach is computed from theirs. -/

namespace RegexInsight

namespace Label

/-! ## Section 1: Parents and children -/

/-- What can stand beside other things in a branch. -/
def isItem : Label → Bool
  | empty => false
  | concat => false
  | alternation => false
  | _ => true

def isQuantifier : Label → Bool
  | quantifier _ _ => true
  | _ => false

/-- What a quantifier can stand over. -/
def isOperand (label : Label) : Bool :=
  label.isItem && label.isRepeatable && !label.isQuantifier

/-- Labels of nodes without children. -/
inductive IsLeaf : Label → Prop where
  | empty : IsLeaf .empty
  | plain {label : Label} {modes : Modes} (h : label.IsPlain modes) : IsLeaf label
  | flags {text : Text} : IsLeaf (.flags text)
  | backreference {target : Text} (h : IsTarget target) : IsLeaf (.backreference target)
  | recursion {target : Text} : IsLeaf (.recursion target)

/-- The labels of the children that a node with a given label can have. -/
inductive Suits : Label → List Label → Prop where
  | leaf {label : Label} (h : label.IsLeaf) : Suits label []
  | group {kind : GroupKind} {body : Label} : Suits (.group kind) [body]
  | lookaround {direction : LookDirection} {negated : Bool} {body : Label} :
      Suits (.lookaround direction negated) [body]
  | quantifier {bounds : Bounds} {mode : QuantifierMode} {operand : Label}
      (hbounds : bounds.Ordered) (hoperand : operand.isOperand = true) :
      Suits (.quantifier bounds mode) [operand]
  | concat {items : List Label} (hlength : 2 ≤ items.length)
      (hitems : ∀ item ∈ items, item.isItem = true) : Suits .concat items
  | alternation {branches : List Label} (hlength : 2 ≤ branches.length)
      (hbranches : ∀ branch ∈ branches, branch ≠ .alternation) : Suits .alternation branches
  | conditional {condition : Text} {branches : List Label} (hcondition : IsTarget condition)
      (hsome : branches ≠ []) (hlength : branches.length ≤ 2)
      (hbranches : ∀ branch ∈ branches, branch ≠ .alternation) :
      Suits (.conditional condition) branches

/-- A quantifier has its bounds in order and stands over one operand. -/
theorem Suits.exists_operand {bounds : Bounds} {mode : QuantifierMode} {below : List Label}
    (h : (Label.quantifier bounds mode).Suits below) :
    bounds.Ordered ∧ ∃ operand, below = [operand] ∧ operand.isOperand = true := by
  cases h with
  | leaf hleaf =>
    cases hleaf with
    | plain hplain => exact nomatch hplain
  | quantifier hbounds hoperand => exact ⟨hbounds, _, rfl, hoperand⟩

end Label

namespace Node

/-- Every node below has the children that suit it, and the reach that
    follows from theirs. -/
def IsNormal (n : Node) : Prop :=
  ∀ m ∈ n.preorder, m.label.Suits (m.children.map label) ∧
    m.reach = m.label.reach (m.children.map reach)

theorem IsNormal.of_mem {n m : Node} (h : n.IsNormal) (hm : m ∈ n.preorder) : m.IsNormal :=
  fun k hk => h k (mem_preorder_trans hm hk)

theorem isNormal_build {count : Nat} {label : Label} {start stop : Nat} {children : List Node}
    (hsuits : label.Suits (children.map Node.label))
    (hchildren : ∀ child ∈ children, child.IsNormal) :
    (build count label start stop children).IsNormal := by
  intro m hm
  rw [build, preorder_node] at hm
  rcases List.mem_cons.mp hm with rfl | hm
  · exact ⟨hsuits, rfl⟩
  · obtain ⟨child, hchild, hm⟩ := List.mem_flatMap.mp hm
    exact hchildren child hchild m hm

/-- A normal node that can stand in a branch beside others. -/
structure IsItem (n : Node) : Prop where
  normal : n.IsNormal
  item : n.label.isItem = true

/-- A normal node that can stand for a branch. -/
structure IsBranch (n : Node) : Prop where
  normal : n.IsNormal
  not_alternation : n.label ≠ .alternation

theorem IsItem.isBranch {n : Node} (h : n.IsItem) : n.IsBranch where
  normal := h.normal
  not_alternation hlabel := by
    have hitem := h.item
    rw [hlabel] at hitem
    exact Bool.noConfusion hitem

end Node

/-! ## Section 2: Closing -/

section Closing

variable {count stop : Nat}

theorem isBranch_closeBranch {items : List Node} (h : ∀ n ∈ items, n.IsItem) :
    (closeBranch count stop items).1.IsBranch := by
  match items with
  | [] => exact ⟨Node.isNormal_build (.leaf .empty) nofun, nofun⟩
  | [only] => exact (h only List.mem_cons_self).isBranch
  | first :: second :: rest =>
    have hsuits : Label.concat.Suits ((first :: second :: rest).map Node.label) := by
      refine .concat (by simp) fun label hlabel => ?_
      obtain ⟨n, hn, rfl⟩ := List.mem_map.mp hlabel
      exact (h n hn).item
    exact ⟨Node.isNormal_build hsuits fun n hn => (h n hn).normal, nofun⟩

theorem isBranch_closeBranches {branches : List (List Node)}
    (h : ∀ items ∈ branches, ∀ n ∈ items, Node.IsItem n) :
    ∀ n ∈ (closeBranches count stop branches).1, n.IsBranch := by
  induction branches generalizing count with
  | nil => exact fun n hn => absurd hn List.not_mem_nil
  | cons items rest ih =>
    intro n hn
    rcases List.mem_cons.mp hn with rfl | hn
    · exact isBranch_closeBranch (h items List.mem_cons_self)
    · exact ih (fun other hother => h other (List.mem_cons_of_mem _ hother)) n hn

theorem length_closeBranches (branches : List (List Node)) :
    (closeBranches count stop branches).1.length = branches.length := by
  induction branches generalizing count with
  | nil => rfl
  | cons items rest ih => exact congrArg Nat.succ ih

theorem isNormal_closeBody {bodies : List Node} (hsome : bodies ≠ [])
    (h : ∀ n ∈ bodies, Node.IsBranch n) : (closeBody count bodies).1.IsNormal := by
  match bodies with
  | [] => exact absurd rfl hsome
  | [only] => exact (h only List.mem_cons_self).normal
  | first :: second :: rest =>
    have hsuits : Label.alternation.Suits ((first :: second :: rest).map Node.label) := by
      refine .alternation (by simp) fun label hlabel => ?_
      obtain ⟨n, hn, rfl⟩ := List.mem_map.mp hlabel
      exact (h n hn).not_alternation
    exact Node.isNormal_build hsuits fun n hn => (h n hn).normal

end Closing

/-- The opener of a conditional has a condition of the right form. -/
def Opener.IsSound : Opener → Prop
  | .conditional condition => IsTarget condition
  | _ => True

/-- A frame of items, in which the last item of the current branch is marked
    when it is a quantifier. -/
structure Frame.IsNormal (f : Frame) : Prop where
  opener : f.opener.IsSound
  items : ∀ n ∈ f.nodes, n.IsItem
  quantified : ∀ item items, f.items = item :: items → item.label.isQuantifier = true →
    f.quantified = true

namespace Frame.IsNormal

variable {f : Frame}

theorem opened {opener : Opener} {start : Nat} {modes : Modes} (hopener : opener.IsSound) :
    (Frame.opened opener start modes).IsNormal where
  opener := hopener
  items := fun _ hn => absurd hn List.not_mem_nil
  quantified := nofun

/-- What is pushed is an item, and no quantifier. -/
theorem push (h : f.IsNormal) {n : Node} (hn : n.IsItem)
    (hquantifier : n.label.isQuantifier = false) : (f.push n).IsNormal where
  opener := h.opener
  items := by
    intro m hm
    rw [Frame.nodes_push] at hm
    rcases List.mem_append.mp hm with hm | hm
    · exact h.items m hm
    · exact List.mem_singleton.mp hm ▸ hn
  quantified := by
    intro item items hitems hitem
    obtain rfl := (List.cons.inj hitems).1
    rw [hquantifier] at hitem
    exact Bool.noConfusion hitem

theorem nextBranch (h : f.IsNormal) : f.nextBranch.IsNormal where
  opener := h.opener
  items := by
    rw [Frame.nodes_nextBranch]
    exact h.items
  quantified := nofun

/-- A frame below the root closes into an operand. -/
theorem close (h : f.IsNormal) {count stop count' : Nat} {node : Node}
    (hclose : f.close count stop = .ok (node, count')) :
    node.IsNormal ∧ (f.opener ≠ .root → node.label.isOperand = true) := by
  have hbranches : ∀ n ∈ (closeBranches count stop f.branches).1, n.IsBranch :=
    isBranch_closeBranches fun items hitems n hn =>
      h.items n (List.mem_flatten.mpr ⟨items, hitems, hn⟩)
  have hsome : (closeBranches count stop f.branches).1 ≠ [] := by
    rw [ne_eq, ← List.length_eq_zero_iff, length_closeBranches]
    simp [Frame.branches]
  have hbody : ∀ after : Nat, (closeBody after (closeBranches count stop f.branches).1).1.IsNormal :=
    fun _ => isNormal_closeBody hsome hbranches
  have hopener := h.opener
  -- every opener but the root puts a node of its own over the body
  cases closed_of_close hclose with
  | root hroot => exact ⟨hbody _, fun hne => absurd hroot hne⟩
  | conditional hkind htwo =>
    rw [hkind] at hopener
    refine ⟨Node.isNormal_build (.conditional hopener ?_ ?_ ?_) ?_, fun _ => rfl⟩
    · exact mt List.map_eq_nil_iff.mp hsome
    · rw [List.length_map]
      exact htwo
    · intro label hlabel
      obtain ⟨n, hn, rfl⟩ := List.mem_map.mp hlabel
      exact (hbranches n hn).not_alternation
    · exact fun n hn => (hbranches n hn).normal
  | lookaround =>
    refine ⟨Node.isNormal_build .lookaround fun child hchild => ?_, fun _ => rfl⟩
    exact List.mem_singleton.mp hchild ▸ hbody _
  | group =>
    refine ⟨Node.isNormal_build .group fun child hchild => ?_, fun _ => rfl⟩
    exact List.mem_singleton.mp hchild ▸ hbody _

end Frame.IsNormal

/-! ## Section 3: Reading -/

theorem Label.isItem_of_isPlain {modes : Modes} {label : Label} (h : label.IsPlain modes) :
    label.isItem = true ∧ label.isQuantifier = false := by
  cases h <;> exact ⟨rfl, rfl⟩

theorem Label.isItem_of_isOperand {label : Label} (h : label.isOperand = true) :
    label.isItem = true ∧ label.isQuantifier = false := by
  simp only [isOperand, Bool.and_eq_true, Bool.not_eq_true'] at h
  exact ⟨h.1.1, h.2⟩

namespace ParserState

/-- What the open frames close into, the innermost one first. -/
def openers (s : ParserState) : List Opener :=
  s.frame.opener :: s.outer.map Frame.opener

/-- All open frames are normal, and the outermost one alone is the root. -/
structure IsNormal (s : ParserState) : Prop where
  frame : s.frame.IsNormal
  outer : ∀ f ∈ s.outer, f.IsNormal
  nested : ∃ inner, s.openers = inner ++ [.root] ∧ ∀ opener ∈ inner, opener ≠ .root

namespace IsNormal

variable {s s' : ParserState}

theorem initial (text : Text) : (ParserState.initial text).IsNormal where
  frame := .opened trivial
  outer := nofun
  nested := ⟨[], rfl, nofun⟩

theorem moveTo (h : s.IsNormal) {cur : Cursor} : (s.moveTo cur).IsNormal :=
  ⟨h.frame, h.outer, h.nested⟩

theorem refer (h : s.IsNormal) {target : Text} {position : Nat} :
    (s.refer target position).IsNormal :=
  ⟨h.frame, h.outer, h.nested⟩

theorem addLeaf (h : s.IsNormal) {leaf : Escape.Leaf} (hleaf : leaf.label.IsLeaf)
    (hitem : leaf.label.isItem = true) (hquantifier : leaf.label.isQuantifier = false) :
    (s.addLeaf leaf).IsNormal where
  frame := h.frame.push ⟨Node.isNormal_build (.leaf hleaf) nofun, hitem⟩ hquantifier
  outer := h.outer
  nested := h.nested

theorem foldl_addLeaf (h : s.IsNormal) {modes : Modes} {leaves : List Escape.Leaf}
    (hleaves : ∀ leaf ∈ leaves, leaf.label.IsPlain modes) :
    (leaves.foldl ParserState.addLeaf s).IsNormal := by
  induction leaves generalizing s with
  | nil => exact h
  | cons leaf rest ih =>
    have hplain := hleaves leaf List.mem_cons_self
    obtain ⟨hitem, hquantifier⟩ := Label.isItem_of_isPlain hplain
    refine ih (h.addLeaf (.plain hplain) hitem hquantifier) fun other hother => ?_
    exact hleaves other (List.mem_cons_of_mem _ hother)

/-- Opening a frame below the root. -/
theorem enter (h : s.IsNormal) {opener : Opener} {start : Nat} {modes : Modes} {cur : Cursor}
    (hsound : opener.IsSound) (hroot : opener ≠ .root) :
    (s.enter opener start modes cur).IsNormal where
  frame := .opened hsound
  outer := List.forall_mem_cons.mpr ⟨h.frame, h.outer⟩
  nested := by
    obtain ⟨inner, hinner, hnested⟩ := h.nested
    exact ⟨opener :: inner, congrArg (opener :: ·) hinner, List.forall_mem_cons.mpr ⟨hroot, hnested⟩⟩

/-- A frame inside another one is not the root. -/
theorem nested_of_outer (h : s.IsNormal) {frame : Frame} {outer : List Frame}
    (houter : s.outer = frame :: outer) :
    s.frame.opener ≠ .root ∧ ∃ inner, frame.opener :: outer.map Frame.opener = inner ++ [.root] ∧
      ∀ opener ∈ inner, opener ≠ .root := by
  obtain ⟨inner, hinner, hnested⟩ := h.nested
  rw [openers, houter, List.map_cons] at hinner
  cases inner with
  | nil => simp at hinner
  | cons opener inner =>
    obtain ⟨rfl, hrest⟩ := List.cons.inj hinner
    obtain ⟨hroot, hnested⟩ := List.forall_mem_cons.mp hnested
    exact ⟨hroot, inner, hrest, hnested⟩

/-- The outermost frame is the root. -/
theorem root_of_outer (h : s.IsNormal) (houter : s.outer = []) : s.frame.opener = .root := by
  obtain ⟨inner, hinner, -⟩ := h.nested
  rw [openers, houter, List.map_nil] at hinner
  cases inner with
  | nil => exact (List.cons.inj hinner).1
  | cons opener inner => simp at hinner

/-- Every move keeps the normal form. -/
theorem move (h : s.IsNormal) (hmove : Move s s') : s'.IsNormal := by
  cases hmove with
  | skip => exact h.moveTo
  | plain _ hleaves => exact (h.foldl_addLeaf hleaves).moveTo
  | @flags text =>
    have hflags : { s with
        frame := { s.frame with modes := s.frame.modes.apply text } }.IsNormal :=
      ⟨⟨h.frame.opener, h.frame.items, h.frame.quantified⟩, h.outer, h.nested⟩
    exact (hflags.addLeaf .flags rfl rfl).moveTo
  | backreference _ htarget =>
    exact (h.refer.addLeaf (.backreference htarget) rfl rfl).moveTo
  | recursion => exact (h.refer.addLeaf .recursion rfl rfl).moveTo
  | whole => exact (h.addLeaf .recursion rfl rfl).moveTo
  | enter _ hopener => cases hopener <;> exact h.enter trivial nofun
  | enterCapturing =>
    have hcounted : { s with groups := s.groups + 1 }.IsNormal := ⟨h.frame, h.outer, h.nested⟩
    unfold enterCapturing
    exact hcounted.enter trivial nofun
  | @enterNamed name =>
    have hcounted : { s with
        groups := s.groups + 1
        names := s.names ++ [(name, s.groups + 1)] }.IsNormal := ⟨h.frame, h.outer, h.nested⟩
    exact hcounted.enter trivial nofun
  | enterConditional _ hcondition => exact h.refer.enter hcondition nofun
  | nextBranch => exact ⟨h.frame.nextBranch, h.outer, h.nested⟩
  | @close frame outer node count cur _ houter hclose =>
    obtain ⟨hroot, hnested⟩ := h.nested_of_outer houter
    have hframes := h.outer
    rw [houter] at hframes
    obtain ⟨hframe, houter⟩ := List.forall_mem_cons.mp hframes
    obtain ⟨hnode, hoperand⟩ := h.frame.close hclose
    obtain ⟨hitem, hquantifier⟩ := Label.isItem_of_isOperand (hoperand hroot)
    exact ⟨hframe.push ⟨hnode, hitem⟩ hquantifier, houter, hnested⟩
  | @quantify bounds mode item items cur _ hbounds hfirst hitems hrepeatable =>
    have hbefore : ∀ n ∈ { s.frame with items := items }.nodes ++ [item], n.IsItem :=
      Frame.nodes_of_items hitems ▸ h.frame.items
    obtain ⟨hrest, hitem⟩ := List.forall_mem_append.mp hbefore
    have hitem := hitem item List.mem_cons_self
    -- an item under a quantifier would have left its mark
    have hquantifier : item.label.isQuantifier = false := by
      by_contra hne
      have hmarked := h.frame.quantified item items hitems (Bool.eq_true_of_not_eq_false hne)
      rw [hfirst] at hmarked
      exact Bool.noConfusion hmarked
    have hoperand : item.label.isOperand = true := by
      simp [Label.isOperand, hitem.item, hrepeatable, hquantifier]
    refine ⟨⟨h.frame.opener, fun n hn => ?_, fun _ _ _ _ => rfl⟩, h.outer, h.nested⟩
    rw [putQuantifier, Frame.nodes_of_items rfl] at hn
    rcases List.mem_append.mp hn with hn | hn
    · exact hrest n hn
    · obtain rfl := List.mem_singleton.mp hn
      refine ⟨Node.isNormal_build (.quantifier hbounds hoperand) fun child hchild => ?_, rfl⟩
      exact List.mem_singleton.mp hchild ▸ hitem.normal

theorem of_runsTo {text : Text} (h : (ParserState.initial text).RunsTo s) : s.IsNormal :=
  h.invariant IsNormal.move (IsNormal.initial text)

end IsNormal

end ParserState

/-- The tree of a parsed pattern is in normal form. -/
theorem Pattern.isNormal_of_parse {text : Text} {p : Pattern} (h : Pattern.parse text = .ok p) :
    p.root.IsNormal := by
  obtain ⟨last, root, hruns, -, hfinish, rfl⟩ := Pattern.parse_eq_ok_iff.mp h
  obtain ⟨-, ⟨count, hclose⟩, -⟩ := ParserState.finish_eq_ok_iff.mp hfinish
  exact ((ParserState.IsNormal.of_runsTo hruns).frame.close hclose).1

end RegexInsight
