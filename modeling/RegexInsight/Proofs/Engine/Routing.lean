import Mathlib
import RegexInsight.Analysis
import RegexInsight.Engine.Compilation
import RegexInsight.Proofs.Pattern.Way

/-! # Routing

    Which trees go to a backtracking engine, said without a profile: those
    with a node that forces it.  The choice by profile is exactly this
    one, for every tree.  The second look at the tree finds a subset of
    the forcing nodes, so it never contradicts the choice, and no analysis
    of a pattern ends in a contradiction. -/

namespace RegexInsight

namespace Node

/-! ## Section 1: Nodes that force backtracking -/

/-- A repeating quantifier stands inside another one, both of them strictly
    below the node. -/
def NestsRepetition (n : Node) : Prop :=
  ∃ outer inner, n.Below outer ∧ outer.Below inner ∧
    outer.isRepeating = true ∧ inner.isRepeating = true

/-- The constructs that only a backtracking engine executes. -/
inductive ForcesBacktracking (n : Node) : Prop where
  | backreference {target : Text} (h : n.label = .backreference target)
  | conditional {condition : Text} (h : n.label = .conditional condition)
  | recursion {target : Text} (h : n.label = .recursion target)
  | atomicGroup (h : n.label = .group .atomic)
  | possessive {bounds : Bounds} (h : n.label = .quantifier bounds .possessive)
  /-- A lookbehind whose body matches texts of different lengths. -/
  | variableLookbehind {negated : Bool} {body : Node} (h : n.label = .lookaround .behind negated)
      (hbody : body ∈ n.children) (hwidth : body.maxWidth ≠ some body.minWidth)
  | nestingLookahead {negated : Bool} (h : n.label = .lookaround .ahead negated)
      (hnests : n.NestsRepetition)

/-- Some node of the tree forces backtracking. -/
def NeedsBacktracking (root : Node) : Prop :=
  ∃ n ∈ root.preorder, n.ForcesBacktracking

/-! ## Section 2: Tests of single nodes -/

variable {n root : Node}

theorem kind_eq_backreference : n.kind = .backreference ↔ ∃ target, n.label = .backreference target := by
  unfold kind
  cases n.label <;> simp [Label.kind]

theorem kind_eq_conditional :
    n.kind = .conditional ↔ ∃ condition, n.label = .conditional condition := by
  unfold kind
  cases n.label <;> simp [Label.kind]

theorem kind_eq_recursion : n.kind = .recursion ↔ ∃ target, n.label = .recursion target := by
  unfold kind
  cases n.label <;> simp [Label.kind]

theorem isAtomicGroup_iff : n.label.isAtomicGroup = true ↔ n.label = .group .atomic := by
  cases n.label with
  | group kind => cases kind <;> simp [Label.isAtomicGroup, GroupKind.isAtomic]
  | _ => simp [Label.isAtomicGroup]

theorem isPossessive_iff :
    n.label.isPossessive = true ↔ ∃ bounds, n.label = .quantifier bounds .possessive := by
  cases n.label <;> simp [Label.isPossessive]

theorem isLookahead_iff :
    n.label.isLookahead = true ↔ ∃ negated, n.label = .lookaround .ahead negated := by
  cases n.label <;> simp [Label.isLookahead]

theorem isVariableLookbehind_iff :
    isVariableLookbehind n = true ↔ (∃ negated, n.label = .lookaround .behind negated) ∧
      ∃ body ∈ n.children, body.maxWidth ≠ some body.minWidth := by
  have hlook : n.label.isLookbehind = true ↔ ∃ negated, n.label = .lookaround .behind negated := by
    cases n.label <;> simp [Label.isLookbehind]
  simp [isVariableLookbehind, hlook, Reach.isFixedWidth, maxWidth, minWidth]

/-- A repeating quantifier stands above, and a lookahead above that one. -/
theorem nestedUnderLookahead_iff {ancestors : List Node} :
    nestedUnderLookahead ancestors = true ↔ ∃ near outer above, ancestors = near ++ outer :: above ∧
      outer.isRepeating = true ∧ ∃ look ∈ above, look.label.isLookahead = true := by
  induction ancestors with
  | nil => simp [nestedUnderLookahead]
  | cons a rest ih =>
    by_cases ha : a.isRepeating = true
    · -- the nearest repeating quantifier has the most above it
      have hnear : nestedUnderLookahead (a :: rest) =
          rest.any fun look => look.label.isLookahead := by
        simp [nestedUnderLookahead, ha]
      rw [hnear, List.any_eq_true]
      constructor
      · rintro ⟨look, hmem, hlook⟩
        exact ⟨[], a, rest, rfl, ha, look, hmem, hlook⟩
      · rintro ⟨near, outer, above, heq, -, look, hmem, hlook⟩
        refine ⟨look, ?_, hlook⟩
        cases near with
        | nil =>
          obtain ⟨-, rfl⟩ := List.cons.inj heq
          exact hmem
        | cons _ near =>
          obtain ⟨-, rfl⟩ := List.cons.inj heq
          simp [hmem]
    · have hskip : nestedUnderLookahead (a :: rest) = nestedUnderLookahead rest := by
        simp [nestedUnderLookahead, ha]
      rw [hskip, ih]
      constructor
      · rintro ⟨near, outer, above, rfl, houter, hlook⟩
        exact ⟨a :: near, outer, above, rfl, houter, hlook⟩
      · rintro ⟨near, outer, above, heq, houter, hlook⟩
        cases near with
        | nil =>
          obtain ⟨rfl, -⟩ := List.cons.inj heq
          exact absurd houter ha
        | cons _ near =>
          obtain ⟨-, rfl⟩ := List.cons.inj heq
          exact ⟨near, outer, above, rfl, houter, hlook⟩

/-- The way to a nested quantifier passes a lookahead first and the outer
    quantifier later. -/
theorem exists_nested_visit_iff :
    (∃ v ∈ root.visits, v.node.isRepeating = true ∧ nestedUnderLookahead v.ancestors = true) ↔
      ∃ look ∈ root.preorder, look.label.isLookahead = true ∧ look.NestsRepetition := by
  constructor
  · rintro ⟨v, hv, hinner, hnested⟩
    obtain ⟨near, outer, above, hsplit, houter, look, hmem, hlook⟩ :=
      nestedUnderLookahead_iff.mp hnested
    obtain ⟨between, beyond, rfl⟩ := List.append_of_mem hmem
    -- the path is cut at the steps that leave the two ancestors
    obtain ⟨low, rest, hpath, -, hrest⟩ := List.map_eq_append_iff.mp hsplit
    obtain ⟨fromOuter, rest', rfl, rfl, hrest'⟩ := List.map_eq_cons_iff.mp hrest
    obtain ⟨middle, rest, rfl, -, hrest⟩ := List.map_eq_append_iff.mp hrest'
    obtain ⟨fromLook, high, rfl, rfl, -⟩ := List.map_eq_cons_iff.mp hrest
    have hway := mem_visits.mp hv
    rw [hpath] at hway
    obtain ⟨htoOuter, htoInner⟩ := hway.through
    obtain ⟨htoLook, hbetween⟩ := htoOuter.through
    refine ⟨fromLook.parent, mem_preorder.mpr ⟨_, htoLook⟩, hlook, fromOuter.parent, v.node,
      below_iff.mpr ⟨_, _, hbetween⟩, below_iff.mpr ⟨_, _, htoInner⟩, houter, hinner⟩
  · rintro ⟨look, hmem, hlook, outer, inner, houter, hinner, hrepeating, hinnermost⟩
    obtain ⟨high, htoLook⟩ := mem_preorder.mp hmem
    obtain ⟨fromLook, middle, htoOuter⟩ := below_iff.mp houter
    obtain ⟨fromOuter, low, htoInner⟩ := below_iff.mp hinner
    have hleaveLook : fromLook.parent = look := htoOuter.parent_eq
    have hleaveOuter : fromOuter.parent = outer := htoInner.parent_eq
    have hway := (htoLook.trans htoOuter).trans htoInner
    refine ⟨⟨inner, _⟩, mem_visits.mpr hway, hinnermost, nestedUnderLookahead_iff.mpr ?_⟩
    refine ⟨low.map Step.parent, outer, middle.map Step.parent ++ look :: high.map Step.parent,
      ?_, hrepeating, look, by simp, hlook⟩
    simp [Visit.ancestors, hleaveLook, hleaveOuter]

end Node

/-! ## Section 3: Selectors -/

namespace EngineSelector

variable {s : EngineSelector} {p : FeatureProfile}

/-- Any trigger that the profile shows is enough. -/
theorem select_eq_backtracking_iff :
    s.select p = .backtracking ↔ ∃ t ∈ s.triggers, p.shows t.signal = true := by
  unfold select
  rw [← List.any_eq_true]
  split
  next hany => simp [hany]
  next hany => simp [hany]

/-- Every trigger that the profile shows gives its reason. -/
theorem reasons_ne_nil_iff : s.reasons p ≠ [] ↔ s.select p = .backtracking := by
  rw [select_eq_backtracking_iff]
  simp [reasons]

end EngineSelector

/-- The signals that ask for a backtracking engine by the standard rule. -/
theorem selectEngine_eq_backtracking_iff {p : FeatureProfile} :
    selectEngine p = .backtracking ↔
      p.hasBackreference = true ∨ p.hasConditional = true ∨ p.hasAtomicGroup = true ∨
        p.hasPossessiveQuantifier = true ∨ p.lookbehindIsVariableLength = true ∨
        p.lookaheadHasNestedQuantifier = true ∨ p.hasRecursion = true := by
  unfold selectEngine
  rw [EngineSelector.select_eq_backtracking_iff]
  simp [EngineSelector.standard, FeatureProfile.shows]

theorem selectEngine_eq_linearTime_iff {p : FeatureProfile} :
    selectEngine p = .linearTime ↔ ¬ selectEngine p = .backtracking := by
  cases selectEngine p <;> simp

/-! ## Section 4: The choice for a tree -/

namespace FeatureProfile

variable {root : Node}

/-- What a profile says of the nodes of its tree. -/
theorem any_nodes {test : Node → Bool} :
    (root.visits.map Visit.node).any test = true ↔ ∃ n ∈ root.preorder, test n = true :=
  List.any_eq_true

/-- By its profile a tree goes to a backtracking engine exactly if one of
    its nodes forces it. -/
theorem selectEngine_ofNode :
    selectEngine (ofNode root) = .backtracking ↔ root.NeedsBacktracking := by
  rw [selectEngine_eq_backtracking_iff]
  -- each signal is a test of the nodes, the nesting one a test of the visits
  simp only [ofNode, any_nodes, decide_eq_true_eq, Node.kind_eq_backreference,
    Node.kind_eq_conditional, Node.kind_eq_recursion, Node.isAtomicGroup_iff,
    Node.isPossessive_iff, Node.isVariableLookbehind_iff]
  have hnested : (root.visits.any fun v => v.node.isRepeating && nestedUnderLookahead v.ancestors)
      = true ↔ ∃ look ∈ root.preorder, look.label.isLookahead = true ∧ look.NestsRepetition := by
    rw [← Node.exists_nested_visit_iff]
    simp
  rw [hnested]
  constructor
  · rintro (⟨n, hn, target, h⟩ | ⟨n, hn, condition, h⟩ | ⟨n, hn, h⟩ | ⟨n, hn, bounds, h⟩ |
      ⟨n, hn, ⟨negated, h⟩, body, hbody, hwidth⟩ | ⟨n, hn, hlook, hnests⟩ | ⟨n, hn, target, h⟩)
    · exact ⟨n, hn, .backreference h⟩
    · exact ⟨n, hn, .conditional h⟩
    · exact ⟨n, hn, .atomicGroup h⟩
    · exact ⟨n, hn, .possessive h⟩
    · exact ⟨n, hn, .variableLookbehind h hbody hwidth⟩
    · obtain ⟨negated, h⟩ := Node.isLookahead_iff.mp hlook
      exact ⟨n, hn, .nestingLookahead h hnests⟩
    · exact ⟨n, hn, .recursion h⟩
  · rintro ⟨n, hn, hforces⟩
    cases hforces with
    | backreference h => exact .inl ⟨n, hn, _, h⟩
    | conditional h => exact .inr (.inl ⟨n, hn, _, h⟩)
    | atomicGroup h => exact .inr (.inr (.inl ⟨n, hn, h⟩))
    | possessive h => exact .inr (.inr (.inr (.inl ⟨n, hn, _, h⟩)))
    | variableLookbehind h hbody hwidth =>
      exact .inr (.inr (.inr (.inr (.inl ⟨n, hn, ⟨_, h⟩, _, hbody, hwidth⟩))))
    | nestingLookahead h hnests =>
      exact .inr (.inr (.inr (.inr (.inr (.inl
        ⟨n, hn, Node.isLookahead_iff.mpr ⟨_, h⟩, hnests⟩)))))
    | recursion h => exact .inr (.inr (.inr (.inr (.inr (.inr ⟨n, hn, _, h⟩)))))

end FeatureProfile

/-! ## Section 5: The second look -/

/-- What the second look at a node finds forces backtracking. -/
theorem Node.forcesBacktracking_of_construct {n : Node} {construct : String}
    (h : backtrackingConstruct? n = some construct) : n.ForcesBacktracking := by
  unfold backtrackingConstruct? at h
  split at h
  next hlabel => exact .backreference hlabel
  next hlabel => exact .conditional hlabel
  next hlabel => exact .recursion hlabel
  next hlabel => exact .atomicGroup hlabel
  next hlabel => exact .possessive hlabel
  next hlabel =>
    split at h
    next hvariable =>
      obtain ⟨-, body, hbody, hwidth⟩ := Node.isVariableLookbehind_iff.mp hvariable
      exact .variableLookbehind hlabel hbody hwidth
    next => simp at h
  next => simp at h

theorem backtrackingConstructs_eq_nil {root : Node} (h : ¬ root.NeedsBacktracking) :
    backtrackingConstructs root = [] := by
  unfold backtrackingConstructs
  rw [List.filterMap_eq_nil_iff]
  intro n hn
  -- the order of completion lists the nodes of the tree
  have hmem : n ∈ root.preorder := (List.mergeSort_perm _ _).mem_iff.mp hn
  cases hconstruct : backtrackingConstruct? n with
  | none => rfl
  | some construct => exact absurd ⟨n, hmem, n.forcesBacktracking_of_construct hconstruct⟩ h

namespace Pattern

variable (p : Pattern)

/-- The choice by profile never contradicts the tree. -/
theorem select_eq_ok : p.select = .ok (selectEngine p.profile) := by
  have hconsistent : p.ensureConsistent (selectEngine p.profile) = .ok () := by
    cases hchoice : selectEngine p.profile with
    | backtracking => rfl
    | linearTime =>
      have hnone : ¬ p.root.NeedsBacktracking := by
        rw [← FeatureProfile.selectEngine_ofNode]
        exact selectEngine_eq_linearTime_iff.mp hchoice
      simp [ensureConsistent, backtrackingConstructs_eq_nil hnone]
  unfold select
  dsimp only
  rw [hconsistent]
  rfl

theorem compile_none (answers : EngineAnswers) :
    p.compile answers none =
      (p.compileFor answers (selectEngine p.profile)).mapError CompileFailure.rejected := by
  unfold compile
  dsimp only
  rw [p.select_eq_ok]
  rfl

end Pattern

/-! ## Section 6: Analyses -/

/-- The outcome is no contradiction between a choice and its tree. -/
def Coherent {α : Type} (x : Except AnalysisError α) : Prop :=
  ∀ violation, x ≠ .error (.inconsistent violation)

section Coherence

variable {α β ε : Type} {x : Except AnalysisError α} {f : α → Except AnalysisError β}

theorem coherent_ok {a : α} : Coherent (.ok a : Except AnalysisError α) := by
  intro violation
  simp

theorem coherent_pure {a : α} : Coherent (pure a : Except AnalysisError α) :=
  coherent_ok

theorem coherent_throw {error : AnalysisError} (h : ∀ violation, error ≠ .inconsistent violation) :
    Coherent (throw error : Except AnalysisError α) := by
  intro violation heq
  exact h violation (Except.error.inj heq)

theorem Coherent.bind (hx : Coherent x) (hf : ∀ a, x = .ok a → Coherent (f a)) :
    Coherent (x >>= f) := by
  intro violation
  cases h : x with
  | error error =>
    intro heq
    obtain rfl : error = .inconsistent violation := Except.error.inj heq
    exact hx violation h
  | ok a => exact hf a h violation

theorem Coherent.map {g : α → β} (hx : Coherent x) : Coherent (x.map g) := by
  have hbind : x.map g = x >>= fun a => pure (g a) := by
    cases x with
    | error error => rfl
    | ok a => rfl
  rw [hbind]
  exact hx.bind fun _ _ => coherent_pure

/-- Errors of another sort are no contradiction. -/
theorem coherent_mapError {y : Except ε α} {wrap : ε → AnalysisError}
    (h : ∀ e violation, wrap e ≠ .inconsistent violation) : Coherent (y.mapError wrap) := by
  intro violation
  cases y with
  | error e =>
    intro heq
    exact h e violation (Except.error.inj heq)
  | ok a => simp [Except.mapError]

theorem coherent_select (p : Pattern) : Coherent (p.select.mapError AnalysisError.inconsistent) := by
  rw [p.select_eq_ok]
  exact coherent_ok

end Coherence

theorem Registry.coherent_judge (registry : Registry) (id : String) (p : Pattern) :
    Coherent (registry.judge id p) :=
  (coherent_mapError (by simp)).map

/-- No validation ends in a contradiction. -/
theorem Registry.coherent_validate (registry : Registry) (dialect : Option String) (text : Text) :
    Coherent (registry.validate dialect text) := by
  unfold validate
  extract_lets afterTarget
  -- what follows once the dialect is resolved
  have hafter : ∀ target, Coherent (afterTarget target) := by
    intro target
    unfold afterTarget
    split
    · exact coherent_pure
    · exact coherent_throw (by simp)
    · next p _ =>
      apply (coherent_select p).bind
      intro engine _
      apply Coherent.bind
      · cases target with
        | none => exact coherent_pure
        | some id => exact (registry.coherent_judge id p).map
      · intro verdict _
        exact coherent_pure
  cases dialect with
  | none => exact hafter none
  | some name =>
    dsimp only
    split
    · exact hafter none
    · apply Coherent.bind (coherent_mapError (by simp)).map
      intro target _
      exact hafter target

theorem AnalysisRequest.coherent_verdict (request : AnalysisRequest) (prober : Prober)
    (p : Pattern) : Coherent (request.verdict prober p) := by
  unfold verdict
  split
  · apply (coherent_mapError (by simp)).bind
    intro config _
    apply (coherent_mapError (by simp)).bind
    intro verdict _
    exact coherent_pure
  · exact coherent_pure

/-- No full analysis ends in a contradiction. -/
theorem AnalysisRequest.coherent_run (request : AnalysisRequest) (registry : Registry)
    (prober : Prober) (text : Text) : Coherent (request.run registry prober text) := by
  unfold run
  apply Coherent.bind
  · unfold targets
    split
    · exact coherent_ok
    · exact (coherent_mapError (by simp)).map
  intro targets _
  apply (coherent_mapError (by simp)).bind
  intro p _
  apply (coherent_select p).bind
  intro engine _
  apply (request.coherent_verdict prober p).bind
  intro verdict _
  apply (coherent_mapError (by simp)).bind
  intro portability _
  exact coherent_pure

/-- The choice by profile is the choice by tree.  Neither the choice itself
    nor a compilation, a validation or an analysis ends in a contradiction
    between the two, and a selector has reasons to give exactly when it
    chooses a backtracking engine. -/
theorem Pattern.routing_agrees (p : Pattern) :
    (selectEngine p.profile = .linearTime ↔ ¬ p.root.NeedsBacktracking) ∧
      p.select = .ok (selectEngine p.profile) ∧
      (∀ answers violation, p.compile answers none ≠ .error (.inconsistent violation)) ∧
      (∀ (registry : Registry) dialect text, Coherent (registry.validate dialect text)) ∧
      (∀ (request : AnalysisRequest) registry prober text,
        Coherent (request.run registry prober text)) ∧
      ∀ s : EngineSelector, s.reasons p.profile ≠ [] ↔ s.select p.profile = .backtracking := by
  refine ⟨?_, p.select_eq_ok, ?_, Registry.coherent_validate, AnalysisRequest.coherent_run,
    fun s => EngineSelector.reasons_ne_nil_iff⟩
  · rw [selectEngine_eq_linearTime_iff]
    exact not_congr FeatureProfile.selectEngine_ofNode
  · intro answers violation
    rw [p.compile_none]
    cases p.compileFor answers (selectEngine p.profile) <;> simp [Except.mapError]

end RegexInsight
