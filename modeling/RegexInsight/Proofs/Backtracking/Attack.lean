import Mathlib
import RegexInsight.Proofs.Backtracking.Extent

/-! # Attacks reach their repetition

    An attack has to bring an engine to the repetition that it is meant
    for, and feed it there.  A viable prefix of a node is the beginning of
    some word of it.  A viable prefix of a child becomes one of the parent
    when the witnesses of the items in front of the child are put before
    it, and step by step one of the whole pattern.  The lead collects just
    these witnesses on the way up, and any number of units is a viable
    prefix of a repetition without upper bound. -/

namespace RegexInsight

/-! ## Section 1: Viable prefixes -/

/-- A label whose node matches by what its children match, whichever of
    them is entered: no assertion, no reference, no condition, and no
    quantifier that never matches its body. -/
def Label.isPassable : Label → Bool
  | .lookaround _ _ => false
  | .quantifier bounds _ => bounds.max != some 0
  | label => label.isSampled

namespace Node

/-- A node that can be passed at every place below. -/
def IsPassable (n : Node) : Prop :=
  ∀ m ∈ n.preorder, m.label.isPassable = true

theorem IsPassable.of_mem {n m : Node} (h : n.IsPassable) (hm : m ∈ n.preorder) : m.IsPassable :=
  fun k hk => h k (mem_preorder_trans hm hk)

theorem IsPassable.isSampled {n : Node} (h : n.IsPassable) : n.IsSampled := by
  intro m hm
  have hpassable := h m hm
  cases hlabel : m.label <;> simp_all [Label.isPassable, Label.isSampled]

/-- The word is the beginning of a word of the node. -/
def IsViable (n : Node) (u : Word) : Prop :=
  ∃ w, u ++ w ∈ n.language

variable {n m parent child : Node} {before after : List Node} {u : Word}

/-- In a sequence the items on both sides contribute their witnesses. -/
theorem IsViable.of_concat (hnormal : parent.IsNormal) (hsampled : parent.IsSampled)
    (hconcat : parent.label = .concat)
    (hchildren : parent.children = before.reverse ++ child :: after) (h : child.IsViable u) :
    parent.IsViable ((before.reverse.map (witness false)).flatten ++ u) := by
  obtain ⟨w, hw⟩ := h
  have hword : ∀ item ∈ parent.children, witness false item ∈ item.language := fun item hitem =>
    (hnormal.of_child hitem).witness_mem (hsampled.of_child hitem) false
  rw [hchildren] at hword
  obtain ⟨hbefore, hrest⟩ := List.forall_mem_append.mp hword
  have hafter := (List.forall_mem_cons.mp hrest).2
  refine ⟨w ++ (after.map (witness false)).flatten, ?_⟩
  rw [language_eq, hconcat, hchildren]
  show _ ∈ ((before.reverse ++ child :: after).map language).prod
  rw [List.map_append, List.prod_append, List.map_cons, List.prod_cons, List.append_assoc,
    ← List.append_assoc u]
  exact Language.append_mem_mul (flatten_mem_prod hbefore)
    (Language.append_mem_mul hw (flatten_mem_prod hafter))

/-- Anything else begins as any of its children does.  A quantifier takes
    the same word for each of the repetitions that it needs. -/
theorem IsViable.of_not_concat (hnormal : parent.IsNormal) (hpassable : parent.IsPassable)
    (hconcat : parent.label ≠ .concat) (hchild : child ∈ parent.children)
    (h : child.IsViable u) : parent.IsViable u := by
  obtain ⟨w, hw⟩ := h
  obtain ⟨hsuits, -⟩ := hnormal _ (mem_preorder_self _)
  have hlabel := hpassable _ (mem_preorder_self _)
  unfold IsViable
  rw [language_eq]
  generalize parent.label = label, parent.children = children at *
  generalize hkinds : children.map Node.label = kinds at hsuits
  cases hsuits with
  | leaf =>
    obtain rfl := List.map_eq_nil_iff.mp hkinds
    exact absurd hchild List.not_mem_nil
  | group =>
    obtain ⟨body, rfl, -⟩ := List.map_eq_singleton_iff.mp hkinds
    obtain rfl := List.mem_singleton.mp hchild
    exact ⟨w, hw⟩
  | lookaround => exact Bool.noConfusion hlabel
  | @quantifier bounds mode _ hbounds =>
    obtain ⟨body, rfl, -⟩ := List.map_eq_singleton_iff.mp hkinds
    obtain rfl := List.mem_singleton.mp hchild
    have hmax : bounds.max ≠ some 0 := by simpa [Label.isPassable] using hlabel
    obtain ⟨k, hk⟩ : ∃ k, witnessCount true bounds = k + 1 :=
      Nat.exists_eq_succ_of_ne_zero (by simp only [witnessCount, if_true]; omega)
    obtain ⟨hle, hmin⟩ := witnessCount_bounds true bounds
    -- the first repetition begins with `u`, and as many as are missing follow it
    refine ⟨w ++ (List.replicate k (u ++ w)).flatten, ?_⟩
    rw [← List.append_assoc, ← List.flatten_cons, ← List.replicate_succ, ← hk]
    exact mem_language_of_pow hbounds hmax hle hmin (flatten_replicate_mem_pow hw _)
  | concat => exact absurd rfl hconcat
  | alternation => exact ⟨w, mem_sum.mpr ⟨_, List.mem_map_of_mem hchild, hw⟩⟩
  | conditional => exact Bool.noConfusion hlabel

end Node

/-! ## Section 2: The lead -/

/-- What one step contributes to a lead: the witnesses of the items in front
    of the child. -/
def Step.lead (step : Step) : List CodePoint :=
  if step.parent.kind = .concat then (step.before.reverse.map (witness false)).flatten else []

theorem leadTo_cons (step : Step) (up : List Step) :
    leadTo (step :: up) = leadTo up ++ step.lead := by
  rw [leadTo, Step.lead]
  split <;> simp

namespace Node

variable {n m child : Node} {path : List Step} {step : Step} {u : Word}

/-- One step up, what the step contributes is put in front. -/
theorem IsViable.up (hnormal : step.parent.IsNormal) (hpassable : step.parent.IsPassable)
    (hchildren : step.parent.children = step.before.reverse ++ child :: step.after)
    (h : child.IsViable u) : step.parent.IsViable (step.lead ++ u) := by
  unfold Step.lead
  by_cases hconcat : step.parent.label = .concat
  · have hkind : step.parent.kind = .concat := congrArg Label.kind hconcat
    rw [if_pos hkind]
    exact .of_concat hnormal hpassable.isSampled hconcat hchildren h
  · rw [if_neg (kind_ne_concat hconcat)]
    exact .of_not_concat hnormal hpassable hconcat (by simp [hchildren]) h

/-- Behind its lead, a viable prefix of a node is one of the whole tree.  The
    induction is on the way down: the last step is the first to be put in
    front. -/
theorem IsViable.behind_lead (hnormal : n.IsNormal) (hpassable : n.IsPassable)
    (hway : n.LeadsTo path m) (h : m.IsViable u) : n.IsViable (leadTo path ++ u) := by
  induction hway generalizing u with
  | here => exact h
  | @down path parent child before after hway hchildren ih =>
    have hparent := mem_preorder.mpr ⟨path, hway⟩
    have hstep := @IsViable.up child ⟨parent, before, after⟩ u (hnormal.of_mem hparent)
      (hpassable.of_mem hparent) hchildren h
    rw [leadTo_cons, List.append_assoc]
    exact ih hstep

end Node

/-! ## Section 3: The unit -/

section Unit

variable {q : Visit} {body : Node} {bounds : Bounds} {mode : QuantifierMode} {unit : Word}

/-- Without an upper bound any number of words of the body is a viable
    prefix: as many more as are asked for can follow. -/
theorem Node.isViable_repeated (hlabel : q.node.label = .quantifier bounds mode)
    (hbody : q.node.children = [body]) (hmax : bounds.max = none) (hunit : unit ∈ body.language)
    (n : Nat) : q.node.IsViable (List.replicate n unit).flatten := by
  refine ⟨(List.replicate bounds.min unit).flatten, ?_⟩
  rw [language_eq, hlabel, hbody, ← List.flatten_append, List.replicate_append_replicate]
  refine ⟨n + bounds.min, Nat.le_add_left _ _, fun high hhigh => ?_,
    flatten_replicate_mem_pow hunit _⟩
  simp [hmax] at hhigh

theorem firstNonempty_spec {texts : List (List CodePoint)} (h : ∃ text ∈ texts, text ≠ []) :
    firstNonempty texts ∈ texts ∧ firstNonempty texts ≠ [] := by
  obtain ⟨text, htext, hne⟩ := h
  have hsome : (texts.find? fun text => !text.isEmpty).isSome = true :=
    List.find?_isSome.mpr ⟨text, htext, by simpa using hne⟩
  obtain ⟨found, hfound⟩ := Option.isSome_iff_exists.mp hsome
  have hnonempty := List.find?_some hfound
  rw [firstNonempty, hfound, Option.getD_some]
  exact ⟨List.mem_of_find?_eq_some hfound, by simpa using hnonempty⟩

/-- A node whose greatest width is not zero matches more than the empty
    word. -/
theorem Node.IsNormal.exists_ne_nil {n : Node} (h : n.IsNormal) (hsampled : n.IsSampled)
    (hwidth : n.maxWidth ≠ some 0) : ∃ w ∈ n.language, w ≠ [] :=
  ⟨witness true n, h.witness_mem hsampled true, mt (h.witness_eq_nil_iff hsampled).mp hwidth⟩

/-- Where a body matches more than the empty word, the unit derived from it
    is such a word. -/
theorem unit_attackOn (hbody : q.node.children = [body]) (hnormal : body.IsNormal)
    (hsampled : body.IsSampled) (hsome : ∃ w ∈ body.language, w ≠ []) :
    (attackOn q []).unit ∈ body.language ∧ (attackOn q []).unit ≠ [] := by
  have hunit : (attackOn q []).unit =
      firstNonempty [[], witness false body, witness true body] := by
    simp [attackOn, hbody, Node.witnesses_eq_map]
  -- the last of the three texts is there if the others are not
  have hfull : witness true body ≠ [] := by
    obtain ⟨w, hw, hne⟩ := hsome
    intro hempty
    have hzero := (hnormal.witness_eq_nil_iff hsampled).mp hempty
    have hlength := hnormal.covers.le_max w hw 0 hzero
    exact hne (List.eq_nil_of_length_eq_zero (Nat.le_zero.mp hlength))
  obtain ⟨hmem, hne⟩ := @firstNonempty_spec [[], witness false body, witness true body]
    ⟨_, by simp, hfull⟩
  rw [hunit]
  refine ⟨?_, hne⟩
  simp only [List.mem_cons, List.not_mem_nil, or_false] at hmem
  rcases hmem with hnil | hshort | hlong
  · exact absurd hnil hne
  · rw [hshort]
    exact hnormal.witness_mem hsampled false
  · rw [hlong]
    exact hnormal.witness_mem hsampled true

end Unit

/-! ## Section 4: Patterns -/

/-- A quantifier that an attack can feed: it has no upper bound, and its body
    can match more than the empty word. -/
def Node.isFeedable (q : Node) : Bool :=
  match q.label, q.children with
  | .quantifier bounds _, [body] => bounds.max.isNone && body.maxWidth != some 0
  | _, _ => false

namespace Pattern

variable {text : Text} {p : Pattern} {site : RiskSite}

/-- Without a seed, an attack needs the plain witnesses, and those with at
    least one repetition if the plain one of the body is empty. -/
theorem checkExtent_eq_ok_iff {q : Visit} (hplace : q ∈ p.root.visits) :
    p.checkExtent q [] = .ok () ↔
      (∀ n ∈ p.root.preorder, n.FitsLimits false) ∧
        ((q.node.children.map (witness false)).flatten = [] →
          ∀ n ∈ p.root.preorder, n.FitsLimits true) := by
  -- once the whole tree is within the limits, so is the body
  have hbelow : (∀ n ∈ p.root.preorder, n.FitsLimits false) →
      ∀ child ∈ q.node.children, ∀ n ∈ child.preorder, n.FitsLimits false := by
    intro hfits child hchild n hn
    have hq : q.node ∈ p.root.preorder := List.mem_map_of_mem hplace
    exact hfits n (Node.mem_preorder_trans hq (Node.mem_preorder_of_child hchild hn))
  have hlengths := @Extent.ofNodes_eq_ok_iff false _ q.node.children
    fun n _ length => Extent.ofNode_eq_ok_iff
  have hzero : (q.node.children.map (witness false)).flatten = [] ↔
      Extent.sum ((q.node.children.map (witness false)).map List.length) = 0 := by
    rw [Extent.sum_map_length, List.length_eq_zero_iff]
  simp only [checkExtent, bind_eq_ok_iff, Extent.ofNode_eq_ok_iff, hlengths, hzero]
  constructor
  · rintro ⟨length, ⟨hfits, -⟩, body, ⟨-, rfl⟩, hrest⟩
    refine ⟨hfits, fun hsum => ?_⟩
    rw [if_pos (by simpa using hsum), bind_eq_ok_iff] at hrest
    obtain ⟨length, hroot, -⟩ := hrest
    exact (Extent.ofNode_eq_ok_iff.mp hroot).1
  · rintro ⟨hfits, hfull⟩
    refine ⟨_, ⟨hfits, rfl⟩, _, ⟨hbelow hfits, rfl⟩, ?_⟩
    split
    next hsum =>
      rw [Extent.ofNode_eq_ok_iff.mpr ⟨hfull (by simpa using hsum), rfl⟩]
      rfl
    next => rfl

theorem prepareAttack_eq_ok_iff {attack : Attack} (hplace : site.quantifier ∈ p.root.visits) :
    p.prepareAttack (some site) [] = .ok attack ↔
      (∀ n ∈ p.root.preorder, n.FitsLimits false) ∧
        ((site.quantifier.node.children.map (witness false)).flatten = [] →
          ∀ n ∈ p.root.preorder, n.FitsLimits true) ∧
        attack = p.attack (some site) [] := by
  rw [← and_assoc, ← checkExtent_eq_ok_iff hplace]
  show (p.checkExtent site.quantifier [] >>= fun _ => .ok (p.attack (some site) [])) = _ ↔ _
  rw [bind_eq_ok_iff]
  constructor
  · rintro ⟨⟨⟩, hcheck, hattack⟩
    exact ⟨hcheck, (Except.ok.inj hattack).symm⟩
  · rintro ⟨hcheck, rfl⟩
    exact ⟨(), hcheck, rfl⟩

/-- The body of the quantifier that a site stands for is a node of the
    pattern. -/
theorem body_mem_of_mem_sites (hsite : site ∈ (scanRepetition p.root).sites) {body : Node}
    (hbody : site.quantifier.node.children = [body]) : body ∈ p.root.preorder := by
  obtain ⟨hplace, -⟩ := quantifier_mem_visits hsite
  exact Node.mem_preorder_trans (List.mem_map_of_mem hplace)
    (Node.child_mem_preorder (by simp [hbody]))

/-- The parts of a quantifier that can be fed. -/
theorem exists_body_of_isFeedable (h : parse text = .ok p) (hpassable : p.root.IsPassable)
    (hsite : site ∈ (scanRepetition p.root).sites)
    (hfeedable : site.quantifier.node.isFeedable = true) :
    ∃ bounds mode body, site.quantifier.node.label = .quantifier bounds mode ∧
      site.quantifier.node.children = [body] ∧ bounds.max = none ∧
        ∃ w ∈ body.language, w ≠ [] := by
  unfold Node.isFeedable at hfeedable
  split at hfeedable
  next bounds mode body hlabel hbody =>
    obtain ⟨hmax, hwidth⟩ := Bool.and_eq_true_iff.mp hfeedable
    have hmem := body_mem_of_mem_sites hsite hbody
    have hsome := ((isNormal_of_parse h).of_mem hmem).exists_ne_nil
      (hpassable.of_mem hmem).isSampled (by simpa using hwidth)
    exact ⟨bounds, mode, body, hlabel, hbody, Option.isNone_iff_eq_none.mp hmax, hsome⟩
  next => exact Bool.noConfusion hfeedable

end Pattern

end RegexInsight
