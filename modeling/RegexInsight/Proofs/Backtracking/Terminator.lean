import Mathlib
import RegexInsight.Backtracking.Attack
import RegexInsight.Proofs.CharSet.Sample
import RegexInsight.Proofs.Repetition.Follow

/-! # The terminator of an attack

    An attack makes a match fail if its terminator is a character that the
    attacked body cannot consume.  Only six candidates are tried, and when
    the body takes all of them the first one is chosen nevertheless.  So
    the terminator is rejected exactly when some candidate is, whatever
    else the body rejects.  Texts that are derived from a body consist of
    its characters; hence a derived unit takes no candidate away. -/

namespace RegexInsight

/-! ## Section 1: Candidates -/

/-- A code point that belongs neither to a set nor to a text. -/
def Outside (avoid : CharSet) (unit : List CodePoint) (c : CodePoint) : Prop :=
  c ≤ maxCodePoint ∧ avoid.contains c = false ∧ c ∉ unit

section Candidates

variable {avoid : CharSet} {unit : List CodePoint} {c : CodePoint}

theorem le_maxCodePoint_of_candidate (hc : c ∈ terminatorCandidates) : c ≤ maxCodePoint := by
  revert c
  decide

theorem outside_candidate_iff (hc : c ∈ terminatorCandidates) :
    Outside avoid unit c ↔ (!avoid.contains c && !unit.contains c) = true := by
  simp [Outside, le_maxCodePoint_of_candidate hc]

/-- The terminator is the first candidate outside, if there is one. -/
theorem terminatorFor_spec {c : CodePoint} (hc : c ∈ terminatorCandidates)
    (houtside : Outside avoid unit c) :
    ∃ before after, terminatorCandidates = before ++ terminatorFor avoid unit :: after ∧
      Outside avoid unit (terminatorFor avoid unit) ∧ ∀ d ∈ before, ¬ Outside avoid unit d := by
  have hsome : (terminatorCandidates.find? fun c =>
      !avoid.contains c && !unit.contains c).isSome = true :=
    List.find?_isSome.mpr ⟨c, hc, (outside_candidate_iff hc).mp houtside⟩
  obtain ⟨t, ht⟩ := Option.isSome_iff_exists.mp hsome
  have hterminator : terminatorFor avoid unit = t := by rw [terminatorFor, ht, Option.getD_some]
  have hfirst := (find?_eq_some_iff_first fun _ hd => outside_candidate_iff hd).mp ht
  obtain ⟨hfound, before, after, hsplit, hbefore⟩ := hfirst
  rw [hterminator]
  exact ⟨before, after, hsplit, hfound, hbefore⟩

theorem terminatorFor_mem (avoid : CharSet) (unit : List CodePoint) :
    terminatorFor avoid unit ∈ terminatorCandidates := by
  unfold terminatorFor
  cases hfind : terminatorCandidates.find? fun c => !avoid.contains c && !unit.contains c with
  | none => decide
  | some t => exact List.mem_of_find?_eq_some hfind

theorem outside_terminatorFor_iff :
    Outside avoid unit (terminatorFor avoid unit) ↔
      ∃ c ∈ terminatorCandidates, Outside avoid unit c := by
  constructor
  · exact fun h => ⟨_, terminatorFor_mem avoid unit, h⟩
  · rintro ⟨c, hc, houtside⟩
    obtain ⟨-, -, -, h, -⟩ := terminatorFor_spec hc houtside
    exact h

end Candidates

/-! ## Section 2: Derived units -/

/-- The shortest of some texts is one of them, and none of them is shorter. -/
theorem shortest_spec {texts : List (List CodePoint)} (hsome : texts ≠ []) :
    shortest texts ∈ texts ∧ ∀ text ∈ texts, (shortest texts).length ≤ text.length := by
  cases texts with
  | nil => exact absurd rfl hsome
  | cons text rest =>
    clear hsome
    induction rest generalizing text with
    | nil => simp [shortest]
    | cons next rest ih =>
      -- of the first two texts the shorter one stays
      by_cases hshorter : next.length < text.length
      · have hstep : shortest (text :: next :: rest) = shortest (next :: rest) := by
          simp [shortest, hshorter]
        obtain ⟨hmem, hleast⟩ := ih next
        have hle := hleast next List.mem_cons_self
        rw [hstep]
        exact ⟨List.mem_cons_of_mem _ hmem, List.forall_mem_cons.mpr ⟨by omega, hleast⟩⟩
      · have hstep : shortest (text :: next :: rest) = shortest (text :: rest) := by
          simp [shortest, hshorter]
        obtain ⟨hmem, hleast⟩ := ih text
        obtain ⟨hfirst, hrest⟩ := List.forall_mem_cons.mp hleast
        rw [hstep]
        refine ⟨?_, List.forall_mem_cons.mpr ⟨hfirst, List.forall_mem_cons.mpr ⟨by omega, hrest⟩⟩⟩
        rcases List.mem_cons.mp hmem with hhere | hlater
        · exact List.mem_cons.mpr (.inl hhere)
        · exact List.mem_cons_of_mem _ (List.mem_cons_of_mem _ hlater)

theorem exists_mem_of_mem_shortest {texts : List (List CodePoint)} {c : CodePoint}
    (h : c ∈ shortest texts) : ∃ text ∈ texts, c ∈ text := by
  have hsome : texts ≠ [] := by
    rintro rfl
    exact absurd h List.not_mem_nil
  exact ⟨shortest texts, (shortest_spec hsome).1, h⟩

namespace Node

variable {n : Node} {atLeastOnce : Bool} {c : CodePoint}

theorem witnesses_eq_map (nodes : List Node) :
    witnesses atLeastOnce nodes = nodes.map (witness atLeastOnce) := by
  induction nodes with
  | nil => rfl
  | cons n rest ih => rw [witnesses, ih, List.map_cons]

theorem exists_mem_of_mem_witnessOf_alternation {texts : List (List CodePoint)}
    (hc : c ∈ witnessOf atLeastOnce .alternation texts) : ∃ text ∈ texts, c ∈ text := by
  unfold witnessOf at hc
  dsimp only at hc
  split at hc
  · obtain ⟨text, htext, hc⟩ := exists_mem_of_mem_shortest hc
    exact ⟨text, List.mem_of_mem_filter htext, hc⟩
  · exact exists_mem_of_mem_shortest hc

theorem mem_of_mem_witnessOf_quantifier {bounds : Bounds} {mode : QuantifierMode}
    {text : List CodePoint} (hc : c ∈ witnessOf atLeastOnce (.quantifier bounds mode) [text]) :
    bounds.max ≠ some 0 ∧ c ∈ text := by
  unfold witnessOf at hc
  dsimp only at hc
  split at hc
  next => exact absurd hc List.not_mem_nil
  next hmax =>
    obtain ⟨copy, hcopy, hc⟩ := List.mem_flatten.mp hc
    obtain rfl := List.eq_of_mem_replicate hcopy
    exact ⟨hmax, by simpa using hc⟩

/-- A leaf has a witness if it takes a character. -/
theorem contains_chars_of_mem_witnessOf_leaf {label : Label} (hleaf : label.IsLeaf)
    (hc : c ∈ witnessOf atLeastOnce label []) : (label.reach []).chars.contains c = true := by
  cases hleaf with
  | plain hplain =>
    cases hplain with
    | literal =>
      obtain rfl := List.mem_singleton.mp hc
      exact Modes.contains_accepts_single _ _
    | charClass | dot => exact CharSet.contains_of_sample (Option.mem_toList.mp hc)
    | anchor => exact absurd hc List.not_mem_nil
  | _ => exact absurd hc List.not_mem_nil

/-- The witness of a node is made of those of its children, or is a
    character that the node takes itself. -/
theorem contains_chars_of_mem_witnessOf {label : Label} {children : List Node}
    (hsuits : label.Suits (children.map Node.label))
    (h : ∀ child ∈ children, ∀ c ∈ witness atLeastOnce child, child.chars.contains c = true)
    (hc : c ∈ witnessOf atLeastOnce label (children.map (witness atLeastOnce))) :
    (label.reach (children.map reach)).chars.contains c = true := by
  have hany : (∃ text ∈ children.map (witness atLeastOnce), c ∈ text) →
      (CharSet.unionAll ((children.map reach).map Reach.chars)).contains c = true := by
    rintro ⟨text, htext, hmem⟩
    obtain ⟨child, hchild, rfl⟩ := List.mem_map.mp htext
    refine CharSet.contains_unionAll.mpr ⟨child.chars, ?_, h child hchild c hmem⟩
    exact List.mem_map_of_mem (List.mem_map_of_mem hchild)
  -- the cases of the witness are those of the label
  generalize hkinds : children.map Node.label = kinds at hsuits
  cases hsuits with
  | leaf hleaf =>
    obtain rfl := List.map_eq_nil_iff.mp hkinds
    exact contains_chars_of_mem_witnessOf_leaf hleaf hc
  | group =>
    obtain ⟨body, rfl, -⟩ := List.map_eq_singleton_iff.mp hkinds
    have hc : c ∈ [witness atLeastOnce body].flatten := hc
    exact h body List.mem_cons_self c (by simpa using hc)
  | lookaround => exact absurd hc List.not_mem_nil
  | @quantifier bounds mode =>
    obtain ⟨body, rfl, -⟩ := List.map_eq_singleton_iff.mp hkinds
    obtain ⟨hmax, hbody⟩ := mem_of_mem_witnessOf_quantifier hc
    show (Reach.repeated bounds body.reach).chars.contains c = true
    rw [Reach.chars_repeated hmax]
    exact h body List.mem_cons_self c hbody
  | concat => exact hany (List.mem_flatten.mp hc)
  | alternation => exact hany (exists_mem_of_mem_witnessOf_alternation hc)
  | conditional =>
    match children with
    | [] => exact absurd hc List.not_mem_nil
    | [only] =>
      refine CharSet.contains_unionAll.mpr ⟨only.chars, List.mem_cons_self, ?_⟩
      exact h only List.mem_cons_self c hc
    | first :: second :: rest => exact hany ⟨_, List.mem_cons_self, hc⟩

/-- A witness consists of characters that the node may consume. -/
theorem IsNormal.contains_chars_of_mem_witness (h : n.IsNormal)
    (hc : c ∈ witness atLeastOnce n) : n.chars.contains c = true := by
  induction n using induction generalizing c with
  | node label mark children ih =>
    obtain ⟨hsuits, hreach⟩ := h _ (mem_preorder_self _)
    rw [chars, hreach]
    rw [witness, witnesses_eq_map] at hc
    refine contains_chars_of_mem_witnessOf hsuits (fun child hchild c hc => ?_) hc
    exact ih child hchild (h.of_child (n := node label mark children) hchild) hc

/-- A derived unit consists of characters of the quantifier, unless nothing
    could be derived and the letter a stands in. -/
theorem contains_chars_of_mem_unit {q : Visit} (hq : q.node.IsNormal)
    (hrepeating : q.node.isRepeating = true) (hc : c ∈ (attackOn q []).unit) :
    q.node.chars.contains c = true ∨ c = 'a'.toNat := by
  obtain ⟨bounds, mode, body, hlabel, hbody, -, hrepeats, -⟩ := exists_body hq hrepeating
  have hmax : bounds.max ≠ some 0 := by
    intro hzero
    simp [Bounds.repeats, hzero] at hrepeats
  -- a quantifier that repeats takes what its body takes
  have hchars : q.node.chars = body.chars := by
    obtain ⟨-, hreach⟩ := hq q.node (mem_preorder_self q.node)
    rw [chars, hreach, hlabel, hbody]
    exact Reach.chars_repeated hmax
  have hwitness : ∀ once, c ∈ (witnesses once q.node.children).flatten →
      q.node.chars.contains c = true := by
    intro once hc
    have hc : c ∈ witness once body := by simpa [hbody, witnesses_eq_map] using hc
    have hnormal : body.IsNormal := hq.of_child (hbody ▸ List.mem_cons_self)
    rw [hchars]
    exact hnormal.contains_chars_of_mem_witness hc
  simp only [attackOn, firstNonempty] at hc
  -- without a seed the unit is one of the two witnesses, or the letter
  cases hfind : List.find? (fun text => !text.isEmpty)
      [[], (witnesses false q.node.children).flatten,
        (witnesses true q.node.children).flatten] with
  | none =>
    rw [hfind] at hc
    exact .inr (List.mem_singleton.mp hc)
  | some text =>
    rw [hfind, Option.getD_some] at hc
    have hmem := List.mem_of_find?_eq_some hfind
    simp only [List.mem_cons, List.not_mem_nil, or_false] at hmem
    rcases hmem with rfl | rfl | rfl
    · exact absurd hc List.not_mem_nil
    · exact .inl (hwitness false hc)
    · exact .inl (hwitness true hc)

end Node

/-! ## Section 3: Patterns -/

namespace Pattern

variable {text : Text} {p : Pattern} {site : RiskSite}

/-- A site stands for a repeating quantifier of the pattern. -/
theorem quantifier_of_mem_sites (h : parse text = .ok p)
    (hsite : site ∈ (scanRepetition p.root).sites) :
    site.quantifier.node.isRepeating = true ∧ site.quantifier.node.IsNormal := by
  obtain ⟨hplace, hrepeating⟩ := quantifier_mem_visits hsite
  exact ⟨hrepeating, (isNormal_of_parse h).of_mem (List.mem_map_of_mem hplace)⟩

/-- At every site of an accepted pattern and for every seed, the terminator
    of the attack lies outside the characters of the quantifier and outside
    the unit exactly when one of the candidates does.  Then no word of the
    quantifier contains it, and it is the first such candidate.  Without a
    seed the unit does not matter. -/
theorem terminator_outside_iff (h : parse text = .ok p)
    (hsite : site ∈ (scanRepetition p.root).sites) (seed : List CodePoint) :
    let quantifier := site.quantifier.node
    let attack := p.attack (some site) seed
    ∃ t, attack.terminator = [t] ∧
      (Outside quantifier.chars attack.unit t ↔
        ∃ c ∈ terminatorCandidates, Outside quantifier.chars attack.unit c) ∧
      (Outside quantifier.chars attack.unit t →
        (∀ w ∈ quantifier.language, t ∉ w) ∧
          ∃ before after, terminatorCandidates = before ++ t :: after ∧
            ∀ c ∈ before, ¬ Outside quantifier.chars attack.unit c) ∧
      (seed = [] → (Outside quantifier.chars attack.unit t ↔
        ∃ c ∈ terminatorCandidates, quantifier.chars.contains c = false)) := by
  obtain ⟨hrepeating, hnormal⟩ := quantifier_of_mem_sites h hsite
  intro quantifier attack
  refine ⟨terminatorFor quantifier.chars attack.unit, rfl, outside_terminatorFor_iff, ?_, ?_⟩
  · intro houtside
    refine ⟨fun w hw hmem => ?_, ?_⟩
    · have htaken := hnormal.covers.chars w hw _ hmem
      exact Bool.false_ne_true (houtside.2.1.symm.trans htaken)
    · obtain ⟨before, after, hsplit, -, hbefore⟩ :=
        terminatorFor_spec (terminatorFor_mem _ _) houtside
      exact ⟨before, after, hsplit, hbefore⟩
  · -- without a seed the unit is made of characters of the quantifier, or is the letter
    rintro rfl
    rw [outside_terminatorFor_iff]
    constructor
    · rintro ⟨c, hc, -, hfree, -⟩
      exact ⟨c, hc, hfree⟩
    · rintro ⟨c, hc, hfree⟩
      refine ⟨c, hc, le_maxCodePoint_of_candidate hc, hfree, fun hunit => ?_⟩
      rcases Node.contains_chars_of_mem_unit hnormal hrepeating hunit with htaken | rfl
      · exact Bool.false_ne_true (hfree.symm.trans htaken)
      · exact absurd hc (by decide)

/-- A dot does not match the line feed, which is the third candidate. -/
theorem terminator_outside_iff_of_dot :
    ∃ p, parse "(.+)+x".toList = .ok p ∧ ∃ site ∈ (scanRepetition p.root).sites,
      (p.attack (some site) []).terminator = ['\n'.toNat] ∧
        ∀ w ∈ site.quantifier.node.language, '\n'.toNat ∉ w := by
  have hcheck : (parse "(.+)+x".toList).toOption.any (fun p =>
      (scanRepetition p.root).sites.any fun site =>
        (p.attack (some site) []).terminator == ['\n'.toNat] &&
          !site.quantifier.node.chars.contains '\n'.toNat) = true := by decide +kernel
  obtain ⟨p, hp, hcheck⟩ := exists_of_check hcheck
  obtain ⟨site, hsite, hcheck⟩ := List.any_eq_true.mp hcheck
  simp only [Bool.and_eq_true, beq_iff_eq, Bool.not_eq_true'] at hcheck
  obtain ⟨hterminator, hfree⟩ := hcheck
  obtain ⟨t, ht, -, hrejected, hunseeded⟩ := terminator_outside_iff hp hsite []
  have hsingle : [t] = ['\n'.toNat] := ht.symm.trans hterminator
  obtain rfl : t = '\n'.toNat := List.head_eq_of_cons_eq hsingle
  refine ⟨p, hp, site, hsite, hterminator, (hrejected ?_).1⟩
  exact (hunseeded rfl).mpr ⟨'\n'.toNat, by decide, hfree⟩

/-- A negated class takes all candidates.  The letter that it rejects is not
    tried, and the terminator is a character of the body. -/
theorem terminator_inside_of_negated :
    ∃ p, parse "([^a]+)+".toList = .ok p ∧ ∃ site ∈ (scanRepetition p.root).sites,
      Outside site.quantifier.node.chars (p.attack (some site) []).unit 'a'.toNat ∧
        (p.attack (some site) []).terminator = ['!'.toNat] ∧
          site.quantifier.node.chars.contains '!'.toNat = true := by
  have hcheck : (parse "([^a]+)+".toList).toOption.any (fun p =>
      (scanRepetition p.root).sites.any fun site =>
        (p.attack (some site) []).unit == ['0'.toNat] &&
          !site.quantifier.node.chars.contains 'a'.toNat &&
          (p.attack (some site) []).terminator == ['!'.toNat] &&
          site.quantifier.node.chars.contains '!'.toNat) = true := by decide +kernel
  obtain ⟨p, hp, hcheck⟩ := exists_of_check hcheck
  obtain ⟨site, hsite, hcheck⟩ := List.any_eq_true.mp hcheck
  simp only [Bool.and_eq_true, beq_iff_eq, Bool.not_eq_true'] at hcheck
  obtain ⟨⟨⟨hunit, hfree⟩, hterminator⟩, htaken⟩ := hcheck
  refine ⟨p, hp, site, hsite, ⟨by decide, hfree, ?_⟩, hterminator, htaken⟩
  rw [hunit]
  decide

end Pattern

end RegexInsight
