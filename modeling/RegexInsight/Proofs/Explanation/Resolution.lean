import Mathlib
import RegexInsight.Proofs.Explanation.Attempt
import RegexInsight.Proofs.Pattern.Offset

/-! # References resolve

    A parsed pattern has no dangling reference.  Every target in its tree
    is the number or the name of one of its groups, and a signed number
    stands for the group at its offset.  What is said of targets carries
    over to the words for them: every backreference in an explanation has
    the number of a group, wherever it stands in it, and putting the
    pattern into words does not fail. -/

namespace RegexInsight

/-! ## Section 1: Everything in a part -/

namespace Part

/-- A part has a property, and so has everything in it. -/
inductive Throughout (P : Part → Prop) : Part → Prop where
  | intro {part : Part} (self : P part)
      (children : ∀ child ∈ part.children, Throughout P child) : Throughout P part

theorem mem_walkEach {depth : Nat} {parts : List Part} {entry : Nat × Part} :
    entry ∈ walkEach depth parts ↔ ∃ part ∈ parts, entry ∈ part.walkFrom depth := by
  induction parts with
  | nil => simp [walkEach]
  | cons part rest ih => simp [walkEach, ih]

/-- A walk comes to nothing else. -/
theorem Throughout.of_mem_walkFrom {P : Part → Prop} {part : Part} (h : part.Throughout P)
    {depth : Nat} {entry : Nat × Part} (hentry : entry ∈ part.walkFrom depth) : P entry.2 := by
  induction h generalizing depth with
  | @intro part self _ ih =>
    obtain ⟨kind, token, description, quantifier, group, children⟩ := part
    rw [walkFrom] at hentry
    rcases List.mem_cons.mp hentry with rfl | hbelow
    · exact self
    · obtain ⟨child, hchild, hentry⟩ := mem_walkEach.mp hbelow
      exact ih child hchild hentry

/-- If the part is a backreference, it has the number of a group. -/
def KnowsGroup (p : Pattern) (part : Part) : Prop :=
  part.kind = .backreference → ∃ g, part.group = some g ∧ 1 ≤ g ∧ g ≤ p.groupCount

theorem Throughout.of_kind_ne {p : Pattern} {part : Part} (hkind : part.kind ≠ .backreference)
    (h : ∀ child ∈ part.children, child.Throughout (KnowsGroup p)) :
    part.Throughout (KnowsGroup p) :=
  .intro (fun heq => absurd heq hkind) h

end Part

/-- The number in the words for a target is that of the group to which it
    leads. -/
theorem Pattern.LeadsTo.referredGroup_eq {p : Pattern} {target : Text} {g : Nat}
    (h : p.LeadsTo target g) : referredGroup p.groupNames target = some g := by
  unfold referredGroup
  split
  next hdigits =>
    obtain ⟨-, -, -, hvalue⟩ := Numeral.read_eq_ok_iff.mp (h.numeral hdigits)
    rw [hvalue]
  next hname => exact h.name (Bool.not_eq_true _ ▸ hname)

/-! ## Section 2: Parts of a node -/

/-- Everything in some parts knows its group. -/
def KnowGroups (p : Pattern) (parts : List Part) : Prop :=
  ∀ part ∈ parts, part.Throughout (Part.KnowsGroup p)

namespace KnowGroups

variable {p : Pattern} {parts : List Part} {bodies : List (List Part)}

theorem nil : KnowGroups p [] := nofun

theorem singleton {kind : PartKind} {token : Text} {description : String}
    {quantifier : Option Text} {group : Option Nat} (hkind : kind ≠ .backreference)
    (h : KnowGroups p parts) :
    KnowGroups p [⟨kind, token, description, quantifier, group, parts⟩] :=
  List.forall_mem_singleton.mpr (.of_kind_ne hkind h)

theorem leaf {kind : PartKind} {token : Text} {description : String}
    (hkind : kind ≠ .backreference) : KnowGroups p [.leaf kind token description] :=
  singleton hkind nil

theorem flatten (h : ∀ body ∈ bodies, KnowGroups p body) : KnowGroups p bodies.flatten := by
  intro part hpart
  obtain ⟨body, hbody, hpart⟩ := List.mem_flatten.mp hpart
  exact h body hbody part hpart

/-- A quantifier keeps the kind and the group of a part that it is folded
    into. -/
theorem quantified (h : KnowGroups p parts) (token suffix : Text) (bounds : Bounds)
    (mode : QuantifierMode) : KnowGroups p (quantified token suffix bounds mode parts) := by
  have hapart : ∀ description, KnowGroups p
      [{ kind := .repetition
         token := token
         description := description
         quantifier := some suffix
         group := none
         children := parts }] :=
    fun _ => singleton (by decide) h
  unfold RegexInsight.quantified
  split
  next part =>
    split
    next =>
      obtain ⟨self, children⟩ := List.forall_mem_singleton.mp h
      exact List.forall_mem_singleton.mpr (.intro self children)
    next => exact hapart _
  next => exact hapart _

theorem classPart (token source : Text) (traits : ClassTraits) :
    KnowGroups p [classPart token source traits] := by
  unfold RegexInsight.classPart
  split
  next => exact leaf (by decide)
  next => split <;> exact leaf (by decide)

theorem groupPart (h : KnowGroups p parts) (token : Text) (kind : GroupKind) :
    KnowGroups p [groupPart token kind parts] := by
  cases kind with
  | nonCapturing flags => cases flags <;> exact singleton (by decide) h
  | _ => exact singleton (by decide) h

theorem lookaroundPart (h : KnowGroups p parts) (token : Text) (direction : LookDirection)
    (negated : Bool) : KnowGroups p [lookaroundPart token direction negated parts] := by
  cases direction <;> exact singleton (by decide) h

theorem branchParts (h : ∀ body ∈ bodies, KnowGroups p body) (describe : Nat → String)
    (tokens : List Text) : KnowGroups p (branchParts describe tokens bodies) := by
  intro part hpart
  obtain ⟨⟨⟨token, body⟩, i⟩, hmem, rfl⟩ := List.mem_map.mp hpart
  have hbody := (List.of_mem_zip (List.fst_mem_of_mem_zipIdx hmem)).2
  exact .of_kind_ne PartKind.noConfusion (h body hbody)

/-- The parts of a node know their groups if those of its children do, and
    if its target leads to a group. -/
theorem partsOf {n : Node} (hbodies : ∀ body ∈ bodies, KnowGroups p body)
    (htarget : ∀ target, n.label = .backreference target → ∃ g, p.LeadsTo target g) :
    KnowGroups p (partsOf p n bodies) := by
  have hbody := flatten hbodies
  unfold RegexInsight.partsOf
  dsimp only
  split
  next => exact nil
  next => exact hbody
  next => exact leaf (by decide)
  next => exact leaf (by decide)
  next => exact leaf (by decide)
  next => exact classPart _ _ _
  next => exact leaf (by decide)
  next => exact hbody.quantified _ _ _ _
  next => exact hbody.groupPart _ _
  next => exact singleton (by decide) (branchParts hbodies _ _)
  next => exact hbody.lookaroundPart _ _ _
  next target hlabel =>
    obtain ⟨g, hg⟩ := htarget target hlabel
    refine List.forall_mem_singleton.mpr (.intro (fun _ => ⟨g, ?_, hg.lower, hg.upper⟩) nofun)
    exact hg.referredGroup_eq
  next => exact leaf (by decide)
  next => exact singleton (by decide) (branchParts hbodies _ _)

end KnowGroups

theorem explainNodes_eq_map (p : Pattern) (nodes : List Node) :
    explainNodes p nodes = nodes.map (explainNode p) := by
  induction nodes with
  | nil => rfl
  | cons n rest ih => rw [explainNodes, ih, List.map_cons]

/-- The parts of a tree know their groups if every target in it leads to
    one. -/
theorem knowGroups_explainNode {p : Pattern} {n : Node} (h : ∀ m ∈ n.preorder, ∀ target,
    m.label = .backreference target → ∃ g, p.LeadsTo target g) :
    KnowGroups p (explainNode p n) := by
  induction n using Node.induction with
  | node label mark children ih =>
    have hbelow : ∀ child ∈ children, KnowGroups p (explainNode p child) :=
      fun child hchild => ih child hchild fun m hm =>
        h m (Node.mem_preorder_of_child (n := .node label mark children) hchild hm)
    have hbodies : ∀ body ∈ explainNodes p children, KnowGroups p body := by
      rw [explainNodes_eq_map]
      exact List.forall_mem_map.mpr hbelow
    exact KnowGroups.partsOf hbodies (h _ (Node.mem_preorder_self _))

/-! ## Section 3: The whole pattern -/

namespace Pattern

/-- A target is the numeral of a group, or the name of one. -/
def IsTarget (p : Pattern) (target : Text) : Prop :=
  (∃ number, Numeral.read target = .ok number ∧ 1 ≤ number ∧ number ≤ p.groupCount) ∨
    target ∈ p.groupNames.map Prod.fst

theorem LeadsTo.isTarget {p : Pattern} {target : Text} {g : Nat} (h : p.LeadsTo target g) :
    p.IsTarget target := by
  cases hdigits : isDigitText target with
  | true => exact .inl ⟨g, h.numeral hdigits, h.lower, h.upper⟩
  | false =>
    obtain ⟨before, after, hnames, -⟩ := List.lookup_eq_some_iff.mp (h.name hdigits)
    exact .inr (List.mem_map.mpr ⟨(target, g), hnames ▸ by simp, rfl⟩)

/-- No reference of a pattern dangles: what its nodes refer to is there, its
    explanation has a group for each backreference, and nothing stops on
    the way to the explanation. -/
structure IsResolved (p : Pattern) : Prop where
  backreference : ∀ n ∈ p.root.preorder, ∀ target, n.label = .backreference target →
    p.IsTarget target
  conditional : ∀ n ∈ p.root.preorder, ∀ condition, n.label = .conditional condition →
    p.IsTarget condition
  recursion : ∀ n ∈ p.root.preorder, ∀ written, n.label = .recursion written →
    p.textOf n ∈ wholeCalls ∨ p.IsTarget written ∨ (Escape.signedDigits? written).isSome = true
  parts : ∀ entry ∈ p.explain.walk, entry.2.kind = .backreference →
    ∃ g, entry.2.group = some g ∧ 1 ≤ g ∧ g ≤ p.groupCount
  explained : p.tryExplain = .ok p.explain

variable {text : Text} {p : Pattern}

theorem isResolved_of_parse (h : parse text = .ok p) : p.IsResolved := by
  obtain ⟨targets, htargets, hremembered⟩ := exists_targets_of_parse h
  have hleads : ∀ n ∈ p.root.preorder, ∀ target, n.label = .backreference target →
      ∃ g, p.LeadsTo target g := by
    intro n hn target hlabel
    have hmem := hremembered n hn
    simp only [Node.IsRemembered, hlabel] at hmem
    exact htargets target hmem
  -- the references that a run remembers are those of the tree
  constructor
  case backreference =>
    intro n hn target hlabel
    obtain ⟨g, hg⟩ := hleads n hn target hlabel
    exact hg.isTarget
  case conditional =>
    intro n hn condition hlabel
    have hmem := hremembered n hn
    simp only [Node.IsRemembered, hlabel] at hmem
    obtain ⟨g, hg⟩ := htargets condition hmem
    exact hg.isTarget
  case recursion =>
    intro n hn written hlabel
    have hmem := hremembered n hn
    simp only [Node.IsRemembered, hlabel] at hmem
    refine hmem.imp_right (Or.imp_left fun hwritten => ?_)
    obtain ⟨g, hg⟩ := htargets written hwritten
    exact hg.isTarget
  case parts =>
    intro entry hentry
    obtain ⟨part, hpart, hentry⟩ := Part.mem_walkEach.mp hentry
    exact (knowGroups_explainNode hleads part hpart).of_mem_walkFrom hentry
  case explained => exact tryExplain_of_parse h

/-- No dangling reference survives parsing.  In a parsed pattern everything
    resolves.  A signed number that is read after some groups have been
    opened counts them from the latest one backwards, or those to come
    forwards; if it counts past the first group or past the last, the text
    is not parsed. -/
theorem references_resolved (text : Text) :
    (∀ p, parse text = .ok p → p.IsResolved) ∧
      ∀ s digits, (ParserState.initial text).RunsTo s → digits ≠ [] →
        digits.all isDecimal = true → 1 ≤ Numeral.value digits →
        (s.groupKinds.filter GroupKind.isCapturing).length = s.groups ∧
        (ShowsOffset true digits s.cur.rest →
          (s.groups < Numeral.value digits →
            ∃ e, parse text = .error e ∧ (digits.length ≤ Numeral.maxDigits →
              e = .malformed
                ⟨.referenceBeforeFirst (offsetText true digits), s.cur.pos, text⟩)) ∧
          ∀ p, parse text = .ok p → Numeral.value digits ≤ s.groups ∧
            s.StandsFor p (offsetText true digits) (s.groups - Numeral.value digits + 1)) ∧
        (ShowsOffset false digits s.cur.rest →
          (∀ last, (ParserState.initial text).RunsTo last → last.cur.rest = [] →
            last.groups < s.groups + Numeral.value digits → ∃ e, parse text = .error e) ∧
          ∀ p, parse text = .ok p →
            s.StandsFor p (offsetText false digits) (s.groups + Numeral.value digits)) := by
  refine ⟨fun p => isResolved_of_parse, fun s digits hruns hsome hall hpos => ?_⟩
  refine ⟨?opened, fun hshows => ⟨?before, ?backward⟩, fun hshows => ⟨?after, ?forward⟩⟩
  case opened =>
    have hnumbers := (ParserState.NumbersGroups.of_runsTo hruns).numbers
    have hlength := congrArg List.length (GroupKind.map_index?_filter s.groupKinds)
    simpa [hnumbers] using hlength
  case before => exact ParserState.parse_of_backward hruns hsome hall hshows
  -- what is counted backwards names a group that is already open
  case backward =>
    intro p hparse
    have hstands := ParserState.standsFor_of_parse hparse hruns hsome hall hshows
    rw [groupAt_backward hpos] at hstands
    have hlower := hstands.lower
    have hle : Numeral.value digits ≤ s.groups := by omega
    exact ⟨hle, (Nat.sub_add_comm hle) ▸ hstands⟩
  case after =>
    intro last hlast hend
    exact ParserState.parse_of_forward hruns hsome hall hshows hlast hend
  case forward =>
    intro p hparse
    exact ParserState.standsFor_of_parse hparse hruns hsome hall hshows

/-- The backreference leads to the group `b`, and two groups back there is
    only one. -/
theorem references_resolved_of_backward :
    (∃ p, ∃ s : ParserState, parse "(a)(?<b>c)\\g-1".toList = .ok p ∧ p.IsResolved ∧
      s.StandsFor p ['-', '1'] 2) ∧
    ∃ e, parse "(a)\\g-2".toList = .error e := by
  have hshows : ∀ digits, ShowsOffset true digits ('\\' :: 'g' :: '-' :: digits) := by
    intro digits
    have hbare : GeneralOffset true digits ('-' :: (digits ++ [])) := .bare (by simp)
    rw [List.append_nil] at hbare
    exact .escape hbare
  constructor
  · -- the state in which the reference is read is that after six steps
    have hrun : (ParserState.run 6 (.initial "(a)(?<b>c)\\g-1".toList)).toOption.any
        (fun s => s.groups == 2 && s.cur.rest == ['\\', 'g', '-', '1']) = true := by
      decide +kernel
    have hparse : (parse "(a)(?<b>c)\\g-1".toList).toOption.any (fun _ => true) = true := by
      decide +kernel
    obtain ⟨p, hp, -⟩ := exists_of_check hparse
    obtain ⟨s, hruns, hs⟩ := ParserState.exists_of_run hrun
    obtain ⟨hgroups, hrest⟩ := Bool.and_eq_true_iff.mp hs
    obtain ⟨hresolved, hoffsets⟩ := references_resolved "(a)(?<b>c)\\g-1".toList
    obtain ⟨-, hbackward, -⟩ := hoffsets s ['1'] hruns (by decide) (by decide) (by decide)
    obtain ⟨-, hstands⟩ := (hbackward (eq_of_beq hrest ▸ hshows _)).2 p hp
    rw [eq_of_beq hgroups] at hstands
    exact ⟨p, s, hp, hresolved p hp, hstands⟩
  · have hrun : (ParserState.run 3 (.initial "(a)\\g-2".toList)).toOption.any
        (fun s => s.groups == 1 && s.cur.rest == ['\\', 'g', '-', '2']) = true := by
      decide +kernel
    obtain ⟨s, hruns, hs⟩ := ParserState.exists_of_run hrun
    obtain ⟨hgroups, hrest⟩ := Bool.and_eq_true_iff.mp hs
    obtain ⟨-, hoffsets⟩ := references_resolved "(a)\\g-2".toList
    obtain ⟨-, hbackward, -⟩ := hoffsets s ['2'] hruns (by decide) (by decide) (by decide)
    obtain ⟨e, he, -⟩ := (hbackward (eq_of_beq hrest ▸ hshows _)).1
      (eq_of_beq hgroups ▸ by decide)
    exact ⟨e, he⟩

end Pattern

end RegexInsight
