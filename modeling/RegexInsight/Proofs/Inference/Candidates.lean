import Mathlib
import RegexInsight.Proofs.Decimal.Rounding
import RegexInsight.Proofs.Inference.EvidenceOrder

/-! # Which candidates are offered

    Every example counts for the candidate of its shape, and no pattern is
    offered twice.  Since two shapes never have one pattern, no shape is
    lost; only a known format can have the pattern of a shape, and then the
    better of the two is offered.

    Where two candidates are equally good, their order is that in which they
    were made: shapes in the order of their first example, known formats
    behind them.  A stable sort of candidates that all tie changes nothing,
    and this is all that the facts about ties need. -/

namespace RegexInsight

/-! ## Section 1: Counting the examples -/

/-- A text is counted in one group. -/
theorem sum_lengths_addToGroups (runs : List Run) (groups : List (List (List Run))) :
    ((addToGroups runs groups).map List.length).sum = (groups.map List.length).sum + 1 := by
  induction groups with
  | nil => rfl
  | cons group rest ih =>
    rw [addToGroups]
    split
    next =>
      simp only [List.map_cons, List.sum_cons, List.length_append, List.length_singleton]
      omega
    next =>
      simp only [List.map_cons, List.sum_cons, ih]
      omega

theorem sum_lengths_shapeGroups (texts : List Text) :
    ((shapeGroups texts).map List.length).sum = texts.length := by
  induction texts using List.reverseRecOn with
  | nil => rfl
  | append_singleton texts t ih =>
    rw [shapeGroups_concat, sum_lengths_addToGroups, ih, List.length_append, List.length_singleton]

/-- The candidates of shapes are supported by as many examples as there are. -/
theorem sum_supports (config : InferenceConfig) (evidence : Evidence) :
    ((shapeCandidates config evidence).map Candidate.support).sum = evidence.examples.length := by
  rw [shapeCandidates, List.map_map]
  exact sum_lengths_shapeGroups evidence.examples

/-! ## Section 2: The candidate that is kept for a pattern -/

section Kept

variable {cs : List Candidate} {c : Candidate}

theorem mem_ranked : c ∈ ranked cs ↔ c ∈ cs :=
  (List.mergeSort_perm cs Candidate.notAfter).mem_iff

/-- For every candidate one with its pattern is kept that is no worse. -/
theorem exists_kept (hc : c ∈ cs) :
    ∃ kept ∈ distinctPatterns (ranked cs), kept.pattern = c.pattern ∧ c.rank ≤ kept.rank := by
  have hfound : ((ranked cs).find? fun k => k.pattern == c.pattern).isSome = true :=
    List.find?_isSome.mpr ⟨c, mem_ranked.mpr hc, beq_self_eq_true _⟩
  obtain ⟨kept, hkept⟩ := Option.isSome_iff_exists.mp hfound
  have hpattern : kept.pattern = c.pattern := by
    have hsame := List.find?_some hkept
    exact eq_of_beq hsame
  refine ⟨kept, mem_distinctPatterns_iff.mpr (hpattern ▸ hkept), hpattern, ?_⟩
  -- it is the first one of those with the pattern, which are sorted
  rw [find?_ranked] at hkept
  obtain ⟨rest, hsplit⟩ := List.head?_eq_some_iff.mp hkept
  have hmem : c ∈ kept :: rest := by
    rw [← hsplit, mem_ranked]
    exact List.mem_filter.mpr ⟨hc, beq_self_eq_true _⟩
  have hsorted : (kept :: rest).Pairwise fun a b => a.notAfter b = true := by
    rw [← hsplit]
    exact List.pairwise_mergeSort Candidate.notAfter_trans Candidate.notAfter_total _
  rcases List.mem_cons.mp hmem with rfl | hrest
  · exact le_rfl
  · exact Candidate.notAfter_iff.mp ((List.pairwise_cons.mp hsorted).1 c hrest)

/-- The pattern of a candidate is kept once. -/
theorem count_pattern_kept (hc : c ∈ cs) :
    ((distinctPatterns (ranked cs)).map Candidate.pattern).count c.pattern = 1 := by
  obtain ⟨kept, hkept, hpattern, -⟩ := exists_kept hc
  refine List.count_eq_one_of_mem (nodup_patterns_distinctPatterns _) ?_
  rw [← hpattern]
  exact List.mem_map_of_mem hkept

theorem mem_of_kept (hc : c ∈ distinctPatterns (ranked cs)) : c ∈ cs :=
  mem_ranked.mp ((distinctPatterns_sublist _).subset hc)

/-- Candidates that tie stay in their order. -/
theorem filter_ranked_of_ties {p : Candidate → Bool}
    (h : ∀ a ∈ cs, ∀ b ∈ cs, p a = true → p b = true → a.rank = b.rank) :
    (ranked cs).filter p = cs.filter p := by
  unfold ranked
  rw [filter_mergeSort Candidate.notAfter_trans Candidate.notAfter_total]
  apply List.mergeSort_of_pairwise
  refine List.pairwise_of_forall_mem_list fun a ha b hb => ?_
  obtain ⟨ha, hpa⟩ := List.mem_filter.mp ha
  obtain ⟨hb, hpb⟩ := List.mem_filter.mp hb
  exact Candidate.notAfter_iff.mpr (h b hb a ha hpb hpa).le

/-- What is kept for a pattern is the first candidate that is as good. -/
theorem head?_of_kept (hc : c ∈ distinctPatterns (ranked cs)) :
    (cs.filter fun k => k.pattern == c.pattern && decide (k.rank = c.rank)).head? = some c := by
  have hfirst := mem_distinctPatterns_iff.mp hc
  obtain ⟨-, before, after, hsplit, hbefore⟩ := List.find?_eq_some_iff_append.mp hfirst
  rw [← filter_ranked_of_ties, List.head?_filter, List.find?_eq_some_iff_append]
  · refine ⟨by simp, before, after, hsplit, fun k hk => ?_⟩
    have hother : (k.pattern == c.pattern) = false := by
      simpa only [Bool.not_eq_true'] using hbefore k hk
    rw [hother, Bool.false_and, Bool.not_false]
  · intro a _ b _ ha hb
    simp only [Bool.and_eq_true, decide_eq_true_eq] at ha hb
    rw [ha.2, hb.2]

end Kept

/-! ## Section 3: What candidates are made -/

/-- The candidates in the order in which they are made. -/
def madeCandidates (config : InferenceConfig) (evidence : Evidence) : List Candidate :=
  shapeCandidates config evidence ++ templateCandidates config evidence

theorem inferAll_eq (config : InferenceConfig) {evidence : Evidence}
    (hsome : evidence.examples ≠ []) :
    inferAll config evidence = .ok (distinctPatterns (ranked (madeCandidates config evidence))) :=
  if_neg (by simpa using hsome)

section Made

variable {config : InferenceConfig} {evidence : Evidence} {c : Candidate}

theorem mem_templateCandidates (hc : c ∈ templateCandidates config evidence) :
    ∃ t ∈ Template.detect evidence.examples, templateCandidate config evidence t = c := by
  unfold templateCandidates at hc
  split at hc
  · exact List.mem_map.mp hc
  · exact absurd hc List.not_mem_nil

theorem source_of_mem_shapeCandidates (hc : c ∈ shapeCandidates config evidence) :
    c.source = .shape := by
  obtain ⟨group, -, rfl⟩ := List.mem_map.mp hc
  rfl

theorem source_of_mem_templateCandidates (hc : c ∈ templateCandidates config evidence) :
    c.source = .template := by
  obtain ⟨t, -, rfl⟩ := mem_templateCandidates hc
  rfl

theorem clamped_bounds (x : Float) : 0.0 ≤ clamped x ∧ clamped x ≤ 1.0 := by
  unfold clamped
  have hlow : (0.0 : Float) ≤ if 0.0 < x then x else 0.0 := by
    split
    next hpos => exact Double.le_of_lt hpos
    next => exact Double.zero_bounds.1
  generalize (if 0.0 < x then x else 0.0) = low at hlow
  dsimp only
  split
  next hless => exact ⟨hlow, Double.le_of_lt hless⟩
  next => exact Double.one_bounds

theorem isNaN_clamped (x : Float) : (clamped x).isNaN = false :=
  (Double.numbers_of_le (clamped_bounds x).2).1

theorem isNaN_of_mem_shapeCandidates (hc : c ∈ shapeCandidates config evidence) :
    c.confidence.isNaN = false := by
  obtain ⟨group, -, rfl⟩ := List.mem_map.mp hc
  exact isNaN_clamped _

theorem isNaN_of_mem_templateCandidates (hcap : config.templateConfidenceCap.isNaN = false)
    (hc : c ∈ templateCandidates config evidence) : c.confidence.isNaN = false := by
  obtain ⟨t, -, rfl⟩ := mem_templateCandidates hc
  show (templateConfidence config evidence t.form).isNaN = false
  unfold templateConfidence
  dsimp only
  split
  next hless => exact (Double.numbers_of_lt hless).1
  next => exact hcap

/-- A known format that all examples have is offered, unless its pattern is
    that of a shape. -/
theorem exists_kept_template {t : Template} (husing : config.useTemplates = true)
    (ht : t ∈ Template.all) (haccepts : ∀ text ∈ evidence.examples, t.accepts text = true)
    (hnew : ∀ s ∈ shapeCandidates config evidence, s.pattern ≠ finished config t.form) :
    ∃ c ∈ distinctPatterns (ranked (madeCandidates config evidence)), c.source = .template := by
  have hdetect : t ∈ Template.detect evidence.examples := by
    rw [Template.detect, (List.mergeSort_perm _ _).mem_iff, List.mem_filter]
    exact ⟨ht, List.all_eq_true.mpr haccepts⟩
  have hmade : templateCandidate config evidence t ∈ madeCandidates config evidence := by
    rw [madeCandidates, templateCandidates, if_pos husing]
    exact List.mem_append_right _ (List.mem_map_of_mem hdetect)
  obtain ⟨kept, hkept, hpattern, -⟩ := exists_kept hmade
  refine ⟨kept, hkept, ?_⟩
  rcases List.mem_append.mp (mem_of_kept hkept) with hshape | htemplate
  · exact absurd hpattern (hnew kept hshape)
  · exact source_of_mem_templateCandidates htemplate

end Made

/-! ## Section 4: No shape is lost -/

/-- Texts of different shapes have different patterns. -/
theorem ShapeForm.text_ne_of_shape_ne {texts texts' : List Text} {shape shape' : List RunKey}
    (hne : texts ≠ []) (hne' : texts' ≠ []) (h : ∀ t ∈ texts, shapeOf t = shape)
    (h' : ∀ t ∈ texts', shapeOf t = shape') (hdiffer : shape ≠ shape') :
    (ShapeForm.ofRuns (texts.map Run.split)).form.text ≠
      (ShapeForm.ofRuns (texts'.map Run.split)).form.text := by
  intro htext
  exact hdiffer ((isGroup_split hne h).shape_eq_of_text_eq (isGroup_split hne' h')
    (isChain_of_shape hne h) (isChain_of_shape hne' h') htext)

/-- Shapes are neither merged nor lost: patterns tell them apart, each shape
    of the examples has its pattern offered once, and each example supports
    one shape. -/
theorem inferAll_keeps_shapes (config : InferenceConfig) {evidence : Evidence}
    (hsome : evidence.examples ≠ []) :
    (∀ (texts texts' : List Text) (shape shape' : List RunKey), texts ≠ [] → texts' ≠ [] →
      (∀ t ∈ texts, shapeOf t = shape) → (∀ t ∈ texts', shapeOf t = shape') → shape ≠ shape' →
        (ShapeForm.ofRuns (texts.map Run.split)).form.text ≠
          (ShapeForm.ofRuns (texts'.map Run.split)).form.text) ∧
      (∃ cs, inferAll config evidence = .ok cs ∧
        ∀ t ∈ evidence.examples,
          (cs.map Candidate.pattern).count (finished config
            (ShapeForm.ofRuns (groupOf evidence.examples (shapeOf t))).form) = 1) ∧
      ((shapeCandidates config evidence).map Candidate.support).sum =
        evidence.examples.length := by
  refine ⟨fun _ _ _ _ => ShapeForm.text_ne_of_shape_ne,
    ⟨_, inferAll_eq config hsome, fun t ht => ?_⟩, sum_supports config evidence⟩
  have hshape : shapeOf t ∈ shapesOf evidence.examples := mem_shapesOf.mpr ⟨t, ht, rfl⟩
  have hcandidate : candidateOf config evidence (shapeOf t) ∈ madeCandidates config evidence := by
    rw [madeCandidates, shapeCandidates_eq]
    exact List.mem_append_left _ (List.mem_map_of_mem hshape)
  exact count_pattern_kept hcandidate

/-- Two shapes with two examples each and a third one with one example. -/
theorem inferAll_keeps_three_shapes :
    (∃ cs, inferAll .standard
        ⟨[['a'], ['1'], ['b'], ['-'], ['2', '3']], [['x']]⟩ = .ok cs ∧
      (cs.map Candidate.pattern).count "[a-z]".toList = 1 ∧
      (cs.map Candidate.pattern).count "\\d\x7b1,2\x7d".toList = 1 ∧
      (cs.map Candidate.pattern).count "-".toList = 1) ∧
      ((shapeCandidates .standard
        ⟨[['a'], ['1'], ['b'], ['-'], ['2', '3']], [['x']]⟩).map Candidate.support).sum = 5 := by
  have hsome : (⟨[['a'], ['1'], ['b'], ['-'], ['2', '3']], [['x']]⟩ : Evidence).examples ≠ [] := by
    decide
  obtain ⟨-, ⟨cs, hcs, hcount⟩, hsum⟩ := inferAll_keeps_shapes .standard hsome
  refine ⟨⟨cs, hcs, ?_, ?_, ?_⟩, hsum⟩
  · exact hcount ['a'] (by decide)
  · exact hcount ['1'] (by decide)
  · exact hcount ['-'] (by decide)

/-! ## Section 5: The order of the candidates -/

/-- Whether a candidate is of a shape and has a given confidence. -/
def Candidate.isShapeWith (x : Float) (c : Candidate) : Bool :=
  decide (c.source = .shape) && c.confidence == x

/-- The candidates for some evidence, the best ones first.  Only a cap that is
    no number makes a confidence that is none, which counts as the worst. -/
structure IsRanking (config : InferenceConfig) (evidence : Evidence) (cs : List Candidate) :
    Prop where
  falling : cs.Pairwise fun a b => b.confidence ≤ a.confidence ∨ b.confidence.isNaN = true
  numbers : config.templateConfidenceCap.isNaN = false → ∀ c ∈ cs, c.confidence.isNaN = false
  distinct : (cs.map Candidate.pattern).Nodup
  made : ∀ c ∈ cs, c ∈ madeCandidates config evidence
  /-- Every pattern comes with the highest confidence that it has. -/
  best : ∀ c ∈ madeCandidates config evidence, ∃ kept ∈ cs, kept.pattern = c.pattern ∧
    (c.confidence ≤ kept.confidence ∨ c.confidence.isNaN = true)
  /-- A known format comes for the pattern of a shape only if it is better. -/
  preferred : ∀ c ∈ cs, c.source = .template → ∀ s ∈ shapeCandidates config evidence,
    s.pattern = c.pattern → s.confidence < c.confidence
  /-- Shapes of one confidence come in the order of their first examples. -/
  stable : ∀ x : Float, (cs.filter (Candidate.isShapeWith x)).Sublist
    ((shapesOf evidence.examples).map (candidateOf config evidence))

section Ranking

variable {config : InferenceConfig} {evidence : Evidence} {c s : Candidate}

theorem rank_le_iff {a b : Candidate} :
    a.rank ≤ b.rank ↔ a.confidence ≤ b.confidence ∨ a.confidence.isNaN = true := by
  rw [← Candidate.notAfter_iff, Candidate.notAfter, Bool.or_eq_true, decide_eq_true_iff]

/-- A known format that is kept has a higher rank than a shape with its
    pattern. -/
theorem rank_lt_of_template (hc : c ∈ distinctPatterns (ranked (madeCandidates config evidence)))
    (htemplate : c.source = .template) (hs : s ∈ shapeCandidates config evidence)
    (hpattern : s.pattern = c.pattern) : s.rank < c.rank := by
  obtain ⟨kept, hkept, hsame, hle⟩ := exists_kept
    (List.mem_append_left (templateCandidates config evidence) hs)
  obtain rfl : kept = c := List.inj_on_of_nodup_map (nodup_patterns_distinctPatterns _) hkept hc
    (hsame.trans hpattern)
  refine lt_of_le_of_ne hle fun hties => ?_
  -- else the first candidate as good as this one would be of a shape
  have hfirst := head?_of_kept hc
  rw [madeCandidates, List.filter_append, List.head?_append_of_ne_nil] at hfirst
  · have hmem := List.mem_of_mem_filter (List.mem_of_mem_head? hfirst)
    rw [source_of_mem_shapeCandidates hmem] at htemplate
    exact CandidateSource.noConfusion htemplate
  · refine List.ne_nil_of_mem (List.mem_filter.mpr ⟨hs, ?_⟩)
    simp [hpattern, hties]

/-- Shapes of one confidence keep their order. -/
theorem filter_kept_sublist (x : Float) :
    ((distinctPatterns (ranked (madeCandidates config evidence))).filter
      (Candidate.isShapeWith x)).Sublist (shapeCandidates config evidence) := by
  have hties : (ranked (madeCandidates config evidence)).filter (Candidate.isShapeWith x) =
      (madeCandidates config evidence).filter (Candidate.isShapeWith x) := by
    refine filter_ranked_of_ties fun a _ b _ ha hb => ?_
    rw [Candidate.isShapeWith, Bool.and_eq_true] at ha hb
    rw [Candidate.rank_of_beq ha.2, Candidate.rank_of_beq hb.2]
  have hnone : (templateCandidates config evidence).filter (Candidate.isShapeWith x) = [] := by
    refine List.filter_eq_nil_iff.mpr fun c hc => ?_
    simp [Candidate.isShapeWith, source_of_mem_templateCandidates hc]
  have hkept := (distinctPatterns_sublist (ranked (madeCandidates config evidence))).filter
    (Candidate.isShapeWith x)
  rw [hties, madeCandidates, List.filter_append, hnone, List.append_nil] at hkept
  exact hkept.trans List.filter_sublist

theorem isRanking_distinct_ranked (config : InferenceConfig) (evidence : Evidence) :
    IsRanking config evidence (distinctPatterns (ranked (madeCandidates config evidence))) where
  falling := by
    apply (pairwise_distinct_ranked _).imp
    intro a b h
    exact rank_le_iff.mp (Candidate.notAfter_iff.mp h)
  numbers := by
    -- a kept candidate comes from a shape or from a template
    intro hcap c hc
    rcases List.mem_append.mp (mem_of_kept hc) with hshape | htemplate
    · exact isNaN_of_mem_shapeCandidates hshape
    · exact isNaN_of_mem_templateCandidates hcap htemplate
  distinct := nodup_patterns_distinctPatterns _
  made := fun c hc => mem_of_kept hc
  best := by
    intro c hc
    obtain ⟨kept, hkept, hpattern, hle⟩ := exists_kept hc
    exact ⟨kept, hkept, hpattern, rank_le_iff.mp hle⟩
  preferred := by
    intro c hc htemplate s hs hpattern
    apply Candidate.confidence_lt_of_rank_lt (isNaN_of_mem_shapeCandidates hs)
    exact rank_lt_of_template hc htemplate hs hpattern
  stable := by
    intro x
    rw [← shapeCandidates_eq]
    exact filter_kept_sublist x

end Ranking

/-- Candidates come ranked, and the best ones are the first of them, as many
    as the configuration allows. -/
theorem inferAll_isRanking (config : InferenceConfig) {evidence : Evidence}
    (hsome : evidence.examples ≠ []) :
    ∃ cs best, inferAll config evidence = .ok cs ∧ IsRanking config evidence cs ∧
      infer config evidence = .ok best ∧ best <+: cs ∧
        best.length = min config.maxCandidates cs.length := by
  have hall := inferAll_eq config hsome
  refine ⟨_, _, hall, isRanking_distinct_ranked config evidence, ?_, List.take_prefix _ _,
    List.length_take⟩
  rw [infer, hall]
  rfl

/-- Two shapes that are equally good, of which one is asked for. -/
theorem inferAll_isRanking_of_two_shapes :
    ∃ cs best, inferAll { InferenceConfig.standard with maxCandidates := 1 }
        ⟨[['7'], ['x']], []⟩ = .ok cs ∧
      IsRanking { InferenceConfig.standard with maxCandidates := 1 } ⟨[['7'], ['x']], []⟩ cs ∧
      infer { InferenceConfig.standard with maxCandidates := 1 }
        ⟨[['7'], ['x']], []⟩ = .ok best ∧
      best <+: cs ∧ best.length = 1 := by
  have hsome : (⟨[['7'], ['x']], []⟩ : Evidence).examples ≠ [] := by decide
  obtain ⟨cs, best, hall, hranking, hbest, hprefix, hlength⟩ :=
    inferAll_isRanking { InferenceConfig.standard with maxCandidates := 1 } hsome
  refine ⟨cs, best, hall, hranking, hbest, hprefix, ?_⟩
  obtain ⟨kept, hkept, -⟩ := hranking.best _ List.mem_cons_self
  have hpos : 0 < cs.length := List.length_pos_of_mem hkept
  rw [hlength]
  exact Nat.min_eq_left hpos

end RegexInsight
