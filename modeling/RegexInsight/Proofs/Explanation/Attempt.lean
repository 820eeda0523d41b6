import Mathlib
import RegexInsight.Explanation.Attempt
import RegexInsight.Proofs.Pattern.Expression
import RegexInsight.Proofs.Pattern.Reference

/-! # Explaining a parsed pattern never fails

    An attempt at an explanation succeeds when every step succeeds at every
    node, and then it gives the explanation.  In the tree of a parsed
    pattern each step does: the normal form provides the operands, the
    reader of a class takes more than its backslash, the bounds of a
    quantifier were read from few enough digits to be written again, and
    the numeral of a reference was read once before, when it was looked
    up. -/

namespace RegexInsight

/-! ## Section 1: Numbers in bounds -/

/-- All numbers of bounds can be written. -/
structure Bounds.IsWritable (b : Bounds) : Prop where
  min : RegexInsight.IsWritable b.min
  max : ∀ high, b.max = some high → RegexInsight.IsWritable high

namespace Bounds

variable {b : Bounds}

/-- Only the two bounds themselves are spoken of. -/
theorem IsWritable.of_spoken (h : b.IsWritable) {n : Nat} (hn : n ∈ b.spoken) :
    RegexInsight.IsWritable n := by
  have hbound : n = b.min ∨ b.max = some n := by
    unfold spoken at hn
    split at hn
    next => nomatch hn
    next => nomatch hn
    next => nomatch hn
    next => exact .inl (List.mem_singleton.mp hn)
    next hmax _ =>
      split at hn
      next => exact .inl (List.mem_singleton.mp hn)
      next =>
        rcases List.mem_pair.mp hn with rfl | rfl
        · exact .inl rfl
        · exact .inr hmax
  rcases hbound with rfl | hmax
  · exact h.min
  · exact h.max n hmax

theorem isWritable_zero : RegexInsight.IsWritable 0 :=
  Numeral.write_eq_ok_iff.mpr ⟨rfl, by decide⟩

theorem isWritable_one : RegexInsight.IsWritable 1 :=
  Numeral.write_eq_ok_iff.mpr ⟨rfl, by decide⟩

theorem isWritable_of_number {text : Text} {n : Nat} (h : Read.number text = .ok n) :
    RegexInsight.IsWritable n :=
  isWritable_of_read (Read.number_eq_ok_iff.mp h)

theorem isWritable_of_ofWritten {low high : Text} {comma : Bool}
    (h : ofWritten low comma high = .ok b) : b.IsWritable := by
  -- the upper bound, once the lower one is known
  have hupper : ∀ least, RegexInsight.IsWritable least →
      (if !comma then return ⟨least, some least⟩
        else if high.isEmpty then return ⟨least, none⟩
        else return ⟨least, some (← Read.number high)⟩ : Read Bounds) = .ok b → b.IsWritable := by
    intro least hleast hrest
    split at hrest
    · obtain rfl := Except.ok.inj hrest
      exact ⟨hleast, fun high hmax => Option.some.inj hmax ▸ hleast⟩
    split at hrest
    · obtain rfl := Except.ok.inj hrest
      exact ⟨hleast, nofun⟩
    · obtain ⟨most, hmost, hbounds⟩ := Read.bind_eq_ok.mp hrest
      obtain rfl := Except.ok.inj hbounds
      exact ⟨hleast, fun high hmax => Option.some.inj hmax ▸ isWritable_of_number hmost⟩
  unfold ofWritten at h
  cases low with
  | nil =>
    simp only [List.isEmpty_nil, if_true, pure_bind] at h
    exact hupper 0 isWritable_zero h
  | cons c low =>
    simp only [List.isEmpty_cons, Bool.false_eq_true, if_false] at h
    obtain ⟨least, hleast, hrest⟩ := Read.bind_eq_ok.mp h
    exact hupper least (isWritable_of_number hleast) hrest

/-- Bounds that were read can be written. -/
theorem isWritable_of_read? {cur after : Cursor} (h : read? cur = .ok (some (b, after))) :
    b.IsWritable := by
  unfold read? at h
  split at h
  next =>
    obtain ⟨rfl, -⟩ := Prod.mk.inj (Option.some.inj (Except.ok.inj h))
    exact ⟨isWritable_zero, nofun⟩
  next =>
    obtain ⟨rfl, -⟩ := Prod.mk.inj (Option.some.inj (Except.ok.inj h))
    exact ⟨isWritable_one, nofun⟩
  next =>
    obtain ⟨rfl, -⟩ := Prod.mk.inj (Option.some.inj (Except.ok.inj h))
    exact ⟨isWritable_zero, fun high hmax => Option.some.inj hmax ▸ isWritable_one⟩
  next =>
    unfold readBraces at h
    split at h
    · simp at h
    · obtain ⟨bounds, hbounds, hpair⟩ := Read.bind_eq_ok.mp h
      obtain ⟨rfl, -⟩ := Prod.mk.inj (Option.some.inj (Except.ok.inj hpair))
      exact isWritable_of_ofWritten hbounds

end Bounds

/-! ## Section 2: Steps -/

theorem attemptNumber_eq_ok {n : Nat} (h : IsWritable n) : attemptNumber n = .ok () := by
  unfold IsWritable at h
  simp only [attemptNumber, h]

/-- Two characters are enough for a backslash and the letter of a
    property. -/
theorem attemptProperty_eq_ok {source : Text} {traits : ClassTraits} (h : 2 ≤ source.length) :
    attemptProperty source traits = .ok () :=
  if_neg fun hshort => absurd hshort.2.2 (Nat.not_lt.mpr h)

theorem Pattern.LeadsTo.attemptTarget_eq_ok {p : Pattern} {target : Text} {g : Nat}
    (h : p.LeadsTo target g) : attemptTarget target = .ok () := by
  unfold attemptTarget
  split
  next hdigits => simp only [h.numeral hdigits]
  next => rfl

/-- The labels of nodes with an operand. -/
def Label.hasOperand : Label → Bool
  | quantifier _ _ => true
  | group _ => true
  | lookaround _ _ => true
  | _ => false

theorem Node.attemptOperand_eq_ok {n : Node} (h : n.label.Suits (n.children.map Node.label))
    (hoperand : n.label.hasOperand = true) : n.attemptOperand = .ok () := by
  have hsome : n.children ≠ [] := by
    intro hnone
    rw [hnone, List.map_nil] at h
    generalize n.label = label at h hoperand
    cases h with
    | leaf hleaf =>
      cases hleaf with
      | plain hplain => cases hplain <;> exact Bool.noConfusion hoperand
      | _ => exact Bool.noConfusion hoperand
    | concat => exact Bool.noConfusion hoperand
    | alternation => exact Bool.noConfusion hoperand
    | conditional => exact Bool.noConfusion hoperand
  unfold attemptOperand
  split
  next hnone => exact absurd hnone hsome
  next => rfl

/-! ## Section 3: Trees -/

theorem tryNodes_eq_ok {p : Pattern} {nodes : List Node}
    (h : ∀ n ∈ nodes, tryNode p n = .ok (explainNode p n)) :
    tryNodes p nodes = .ok (explainNodes p nodes) := by
  induction nodes with
  | nil => rfl
  | cons n rest ih =>
    obtain ⟨hfirst, hrest⟩ := List.forall_mem_cons.mp h
    rw [tryNodes, hfirst, ih hrest]
    rfl

/-- When every step succeeds, the attempt gives the parts of the tree. -/
theorem tryNode_eq_ok (p : Pattern) {n : Node} (h : ∀ m ∈ n.preorder, m.attempt = .ok ()) :
    tryNode p n = .ok (explainNode p n) := by
  induction n using Node.induction with
  | node label mark children ih =>
    have hbelow : ∀ child ∈ children, tryNode p child = .ok (explainNode p child) :=
      fun child hchild => ih child hchild fun m hm =>
        h m (Node.mem_preorder_of_child (n := .node label mark children) hchild hm)
    rw [tryNode, tryNodes_eq_ok hbelow, h _ (Node.mem_preorder_self _)]
    rfl

/-! ## Section 4: Parsed patterns -/

/-- The bounds of every quantifier that was read can be written. -/
theorem ParserState.isWritable_of_runsTo {text : Text} {s : ParserState}
    (h : (initial text).RunsTo s) {n : Node} (hn : n ∈ s.explicit) {bounds : Bounds}
    {mode : QuantifierMode} (hlabel : n.label = .quantifier bounds mode) : bounds.IsWritable := by
  revert n
  -- an invariant of the run: a step adds a quantifier only with bounds that it read
  refine h.invariant (P := fun s => ∀ {n : Node}, n ∈ s.explicit →
    n.label = .quantifier bounds mode → bounds.IsWritable) (fun {s s'} hs hmove => ?_) nofun
  intro n hn hlabel
  obtain ⟨new, hnew, harises⟩ := hmove.exists_explicit
  rcases (hnew n).mp hn with hold | hn
  · exact hs hold hlabel
  · cases harises n hn with
    | quantifier hquantifier hread =>
      obtain ⟨rfl, -⟩ := Label.quantifier.inj (hquantifier.symm.trans hlabel)
      exact Bounds.isWritable_of_read? hread
    | plain hplain =>
      rw [hlabel] at hplain
      nomatch hplain
    | closed hopener =>
      rw [hlabel] at hopener
      rcases Opener.cases_of_label? hopener with ⟨_, -, h⟩ | ⟨_, _, -, h⟩ | ⟨_, -, h⟩ <;>
        exact Label.noConfusion h
    | flags hother => simp [hlabel] at hother
    | backreference hother => simp [hlabel] at hother
    | recursion hother => simp [hlabel] at hother
    | whole hother => simp [hlabel] at hother

namespace Pattern

variable {text : Text} {p : Pattern}

theorem isWritable_of_parse (h : parse text = .ok p) {n : Node} (hn : n ∈ p.root.preorder)
    {bounds : Bounds} {mode : QuantifierMode} (hlabel : n.label = .quantifier bounds mode) :
    bounds.IsWritable := by
  obtain ⟨last, hruns, hexplicit⟩ := exists_explicit_of_parse h
  have hmem : n ∈ p.root.explicit := Node.mem_explicit.mpr ⟨hn, by rw [hlabel]; rfl⟩
  exact ParserState.isWritable_of_runsTo hruns (hexplicit ▸ hmem) hlabel

/-- Every step of an explanation succeeds at every node of a parsed
    pattern. -/
theorem attempt_of_parse (h : parse text = .ok p) {n : Node} (hn : n ∈ p.root.preorder) :
    n.attempt = .ok () := by
  obtain ⟨hsuits, -⟩ := isNormal_of_parse h n hn
  unfold Node.attempt
  -- only five sorts of nodes attempt anything
  split
  next hlabel =>
    rw [hlabel] at hsuits
    generalize n.children.map Node.label = below at hsuits
    cases hsuits with
    | leaf hleaf =>
      cases hleaf with
      | plain hplain =>
        cases hplain with
        | charClass _ hsource => exact attemptProperty_eq_ok hsource
  next bounds mode hlabel =>
    rw [Node.attemptOperand_eq_ok hsuits (by rw [hlabel]; rfl)]
    have hwritable := isWritable_of_parse h hn hlabel
    exact forM_eq_ok_iff.mpr fun k hk => attemptNumber_eq_ok (hwritable.of_spoken hk)
  next hlabel => exact Node.attemptOperand_eq_ok hsuits (by rw [hlabel]; rfl)
  next hlabel => exact Node.attemptOperand_eq_ok hsuits (by rw [hlabel]; rfl)
  next target hlabel =>
    obtain ⟨targets, htargets, hremembered⟩ := exists_targets_of_parse h
    have hmem := hremembered n hn
    simp only [Node.IsRemembered, hlabel] at hmem
    obtain ⟨g, hg⟩ := htargets target hmem
    exact hg.attemptTarget_eq_ok
  next => rfl

theorem tryExplain_of_parse (h : parse text = .ok p) : p.tryExplain = .ok p.explain := by
  rw [tryExplain, tryNode_eq_ok p fun m hm => attempt_of_parse h hm]
  rfl

end Pattern

end RegexInsight
