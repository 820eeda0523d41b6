import Mathlib
import RegexInsight.Proofs.Pattern.Explicit
import RegexInsight.Proofs.Pattern.GroupOrder
import RegexInsight.Proofs.Pattern.NumeralFailure

/-! # References

    References are read in many forms, at any place of a pattern, and some
    are made absolute on the spot.  Whatever the form, the target is
    remembered, and at the end every target that was remembered is looked
    up.  Hence every reference in the tree of a parsed pattern leads to one
    of its groups. -/

namespace RegexInsight

/-! ## Section 1: Remembered targets -/

/-- The targets of the references that were read. -/
def ParserState.targets (s : ParserState) : List Text :=
  s.references.map Reference.target

/-- What a node refers to is among some targets, unless it calls the whole
    pattern or says how many groups to count. -/
def Node.IsRemembered (text : Text) (targets : List Text) (n : Node) : Prop :=
  match n.label with
  | .backreference target => target ∈ targets
  | .conditional condition => condition ∈ targets
  | .recursion written =>
    n.textIn text ∈ wholeCalls ∨ written ∈ targets ∨ (Escape.signedDigits? written).isSome = true
  | _ => True

theorem Node.IsRemembered.mono {text : Text} {targets targets' : List Text} {n : Node}
    (h : n.IsRemembered text targets) (hsub : targets ⊆ targets') :
    n.IsRemembered text targets' := by
  unfold IsRemembered at h ⊢
  split
  next hlabel =>
    simp only [hlabel] at h
    exact hsub h
  next hlabel =>
    simp only [hlabel] at h
    exact hsub h
  next hlabel =>
    simp only [hlabel] at h
    exact h.imp_right (Or.imp_left fun hmem => hsub hmem)
  next => trivial

/-- Only a signed number is remembered in another form than it is written. -/
theorem Escape.eq_or_isSome_of_absoluteReference {start groups : Nat} {written target : Text}
    (h : absoluteReference start groups written = .ok target) :
    target = written ∨ (signedDigits? written).isSome = true := by
  unfold absoluteReference at h
  split at h
  next hsigned => exact .inr (by rw [hsigned]; rfl)
  next =>
    obtain ⟨-, htarget⟩ := Read.guard_eq_ok'.mp h
    exact .inl (Except.ok.inj htarget).symm

/-- The text between two cursors of one text. -/
theorem slice_of_passes {text shown : Text} {cur after : Cursor}
    (hplace : cur.rest = text.drop cur.pos) (hafter : cur.Passes after)
    (hshown : cur.rest = shown ++ after.rest) : slice text cur.pos after.pos = shown := by
  obtain ⟨⟨n, hn, rfl⟩, -⟩ := hafter
  have hlength := congrArg List.length hshown
  simp only [Cursor.advance_rest, List.length_append, List.length_drop] at hlength
  have htake : n = shown.length := by omega
  rw [slice, ← hplace, Cursor.advance_pos, Nat.add_sub_cancel_left, hshown, htake, List.take_left]

/-! ## Section 2: Reading -/

namespace ParserState

variable {s s' : ParserState}

theorem openers_foldl_addLeaf (leaves : List Escape.Leaf) :
    (leaves.foldl addLeaf s).openers = s.openers ∧
      (leaves.foldl addLeaf s).references = s.references := by
  induction leaves generalizing s with
  | nil => exact ⟨rfl, rfl⟩
  | cons leaf rest ih => exact ih

/-- No reference is forgotten. -/
theorem Move.references_subset (h : Move s s') : s.references ⊆ s'.references := by
  cases h with
  | @plain leaves =>
    rw [moveTo, (openers_foldl_addLeaf leaves).2]
    exact List.Subset.refl _
  | backreference => exact List.subset_cons_self _ _
  | recursion => exact List.subset_cons_self _ _
  | enterConditional => exact List.subset_cons_self _ _
  | _ => exact List.Subset.refl _

/-- A conditional frame is opened after its condition was remembered. -/
theorem Move.conditional_mem (h : Move s s') {condition : Text}
    (hopener : Opener.conditional condition ∈ s'.openers) :
    Opener.conditional condition ∈ s.openers ∨ condition ∈ s'.targets := by
  cases h with
  | @plain leaves =>
    rw [← (openers_foldl_addLeaf leaves).1]
    exact .inl hopener
  | enter _ hplain =>
    rcases List.mem_cons.mp hopener with rfl | hold
    · nomatch hplain
    · exact .inl hold
  | enterCapturing =>
    rcases List.mem_cons.mp hopener with heq | hold
    · nomatch heq
    · exact .inl hold
  | enterNamed =>
    rcases List.mem_cons.mp hopener with heq | hold
    · nomatch heq
    · exact .inl hold
  | enterConditional =>
    rcases List.mem_cons.mp hopener with heq | hold
    · obtain rfl := Opener.conditional.inj heq
      exact .inr List.mem_cons_self
    · exact .inl hold
  | close _ houter =>
    refine .inl (List.mem_cons_of_mem _ ?_)
    rw [houter]
    exact hopener
  | _ => exact .inl hopener

/-- Everything that was read so far stands at its place, and what refers to
    something is remembered. -/
structure RemembersTargets (text : Text) (s : ParserState) : Prop where
  place : s.cur.rest = text.drop s.cur.pos
  nodes : ∀ n ∈ s.explicit, n.IsRemembered text s.targets
  openers : ∀ condition, Opener.conditional condition ∈ s.openers → condition ∈ s.targets

namespace RemembersTargets

variable {text : Text}

theorem initial (text : Text) : (ParserState.initial text).RemembersTargets text where
  place := rfl
  nodes := nofun
  openers := by simp [ParserState.openers, ParserState.initial, Frame.opened]

/-- A node that comes about is remembered. -/
theorem isRemembered_of_arises (h : s.RemembersTargets text) (hmove : Move s s') {n : Node}
    (hn : Arises s s' n) : n.IsRemembered text s'.targets := by
  have hsub : s.targets ⊆ s'.targets := List.map_subset _ hmove.references_subset
  cases hn with
  | plain hlabel =>
    unfold Node.IsRemembered
    generalize n.label = label at hlabel
    cases hlabel <;> trivial
  | flags hlabel => simp [Node.IsRemembered, hlabel]
  | backreference hlabel _ hreferences =>
    simp [Node.IsRemembered, hlabel, targets, hreferences]
  | recursion hlabel _ htarget hreferences =>
    simp only [Node.IsRemembered, hlabel, targets, hreferences, List.map_cons, List.mem_cons]
    rcases Escape.eq_or_isSome_of_absoluteReference htarget with rfl | hsigned
    · exact .inr (.inl (.inl rfl))
    · exact .inr (.inr hsigned)
  | whole hlabel hstart hstop hcall hrest =>
    have hslice := slice_of_passes h.place hmove.passes hrest
    simp only [Node.IsRemembered, hlabel, Node.textIn, hstart, hstop, hslice]
    exact .inl hcall
  | closed hlabel =>
    rcases Opener.cases_of_label? hlabel with
      ⟨kind, -, heq⟩ | ⟨direction, negated, -, heq⟩ | ⟨condition, hopener, heq⟩
    · simp [Node.IsRemembered, heq]
    · simp [Node.IsRemembered, heq]
    · simp only [Node.IsRemembered, heq]
      exact hsub (h.openers condition (hopener ▸ List.mem_cons_self))
  | quantifier hlabel => simp [Node.IsRemembered, hlabel]

theorem move (h : s.RemembersTargets text) (hmove : Move s s') : s'.RemembersTargets text := by
  have hsub : s.targets ⊆ s'.targets := List.map_subset _ hmove.references_subset
  obtain ⟨new, hnew, harises⟩ := hmove.exists_explicit
  refine ⟨?place, fun n hn => ?nodes, fun condition hopener => ?openers⟩
  case place =>
    obtain ⟨⟨k, -, hcur⟩, -⟩ := hmove.passes
    rw [hcur, Cursor.advance_rest, Cursor.advance_pos, h.place, List.drop_drop]
  case nodes =>
    rcases (hnew n).mp hn with hold | hn
    · exact (h.nodes n hold).mono hsub
    · exact h.isRemembered_of_arises hmove (harises n hn)
  case openers =>
    rcases hmove.conditional_mem hopener with hold | hmem
    · exact hsub (h.openers condition hold)
    · exact hmem

theorem of_runsTo (h : (ParserState.initial text).RunsTo s) : s.RemembersTargets text :=
  h.invariant move (initial text)

end RemembersTargets

/-- The tree that a finished pattern closes to has all explicit nodes that
    were read. -/
theorem IsNormal.explicit_finish (h : s.IsNormal) {root : Node} (hfinish : s.finish = .ok root) :
    root.explicit = s.explicit := by
  obtain ⟨houter, ⟨count, hclose⟩, -⟩ := finish_eq_ok_iff.mp hfinish
  rcases Frame.explicit_close hclose with ⟨-, hexplicit⟩ | ⟨hopener, -⟩
  · simp [hexplicit, explicit, houter]
  · simp [h.root_of_outer houter, Opener.label?] at hopener

end ParserState

/-! ## Section 3: Parsing -/

namespace Pattern

variable {text : Text} {p : Pattern}

/-- The explicit nodes of a parsed pattern are those that were read. -/
theorem exists_explicit_of_parse (h : parse text = .ok p) :
    ∃ last, (ParserState.initial text).RunsTo last ∧ p.root.explicit = last.explicit := by
  obtain ⟨last, root, hruns, -, hfinish, rfl⟩ := parse_eq_ok_iff.mp h
  exact ⟨last, hruns, (ParserState.IsNormal.of_runsTo hruns).explicit_finish hfinish⟩

/-- A target leads to the group `g`: it is the numeral of its number, or its
    name. -/
structure LeadsTo (p : Pattern) (target : Text) (g : Nat) : Prop where
  lower : 1 ≤ g
  upper : g ≤ p.groupCount
  numeral : isDigitText target = true → Numeral.read target = .ok g
  name : isDigitText target = false → p.groupNames.lookup target = some g

/-- The numbers in the table of names are those of groups. -/
theorem mem_range_of_groupNames (h : parse text = .ok p) {entry : Text × Nat}
    (hentry : entry ∈ p.groupNames) : 1 ≤ entry.2 ∧ entry.2 ≤ p.groupCount := by
  obtain ⟨hnumbers, hnames, -⟩ := groupKinds_of_parse h
  rw [← hnames] at hentry
  obtain ⟨kind, hkind, hnamed⟩ := List.mem_filterMap.mp hentry
  have hindex : kind.index? = some entry.2 := by
    cases kind with
    | named index name spelling =>
      obtain rfl := Option.some.inj hnamed
      rfl
    | _ => nomatch hnamed
  have hmem : entry.2 ∈ List.range' 1 p.groupCount :=
    hnumbers ▸ List.mem_filterMap.mpr ⟨kind, hkind, hindex⟩
  have hrange := List.mem_range'_1.mp hmem
  omega

/-- What was remembered up to the end of a pattern leads to its groups, and
    its tree refers to nothing else. -/
theorem exists_targets_of_parse (h : parse text = .ok p) :
    ∃ targets : List Text, (∀ target ∈ targets, ∃ g, p.LeadsTo target g) ∧
      ∀ n ∈ p.root.preorder, n.IsRemembered p.text targets := by
  have hrange : ∀ entry ∈ p.groupNames, 1 ≤ entry.2 ∧ entry.2 ≤ p.groupCount :=
    fun _ => mem_range_of_groupNames h
  obtain ⟨last, root, hruns, -, hfinish, rfl⟩ := parse_eq_ok_iff.mp h
  obtain ⟨-, -, hcheck⟩ := ParserState.finish_eq_ok_iff.mp hfinish
  have hlast := ParserState.RemembersTargets.of_runsTo hruns
  refine ⟨last.targets, fun target htarget => ?resolved, fun n hn => ?remembered⟩
  case resolved =>
    obtain ⟨r, hr, rfl⟩ := List.mem_map.mp htarget
    have hknown := ParserState.checkReferences_eq_ok_iff.mp hcheck r hr
    unfold ParserState.IsKnown at hknown
    -- the check at the end of the pattern knows numbers from names
    split at hknown
    next hdigits =>
      obtain ⟨number, hread, hlower, hupper⟩ := hknown
      exact ⟨number, hlower, hupper, fun _ => hread, fun hname => by simp [hdigits] at hname⟩
    next hdigits =>
      obtain ⟨entry, hentry, hname⟩ := hknown
      obtain ⟨g, hg⟩ : ∃ g, last.names.lookup r.target = some g :=
        Option.isSome_iff_exists.mp
          (List.lookup_isSome_iff.mpr ⟨entry, hentry, beq_iff_eq.mpr hname.symm⟩)
      obtain ⟨before, after, hsplit, -⟩ := List.lookup_eq_some_iff.mp hg
      obtain ⟨hlower, hupper⟩ := hrange (r.target, g) (hsplit ▸ by simp)
      exact ⟨g, hlower, hupper, fun hdigits' => absurd hdigits' hdigits, fun _ => hg⟩
  case remembered =>
    -- what the parser adds on its own refers to nothing
    have hexplicit := (ParserState.IsNormal.of_runsTo hruns).explicit_finish hfinish
    cases himplicit : n.label.isImplicit with
    | false => exact hlast.nodes n (hexplicit ▸ Node.mem_explicit.mpr ⟨hn, himplicit⟩)
    | true =>
      unfold Node.IsRemembered
      generalize n.label = label at himplicit
      cases label <;> trivial

end Pattern

end RegexInsight
