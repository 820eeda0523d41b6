import Mathlib
import RegexInsight.Proofs.Inference.Candidates

/-! # Bounds of the confidence

    The confidence in a shape is clamped, so it lies between zero and one
    whatever the configuration is.  The confidence in a known format is not:
    it is one without the share of the negatives that are accepted, unless
    the cap is smaller, and the cap is any double.  A cap below zero is the
    confidence in every known format. -/

namespace RegexInsight

/-! ## Section 1: Scores between zero and one -/

section Scores

variable {config : InferenceConfig} (evidence : Evidence) (form : Form)

theorem falsePositiveRate_bounds (negatives : List Text) :
    0.0 ≤ falsePositiveRate form negatives ∧ falsePositiveRate form negatives ≤ 1.0 := by
  unfold falsePositiveRate
  split
  next => exact Double.zero_bounds
  next hsome =>
    refine Double.quotient_bounds (List.length_filter_le _ _) (List.length_pos_iff.mpr ?_)
    simpa using hsome

/-- The share of the negatives that are rejected. -/
theorem rejected_bounds (negatives : List Text) :
    0.0 ≤ 1.0 - falsePositiveRate form negatives ∧ 1.0 - falsePositiveRate form negatives ≤ 1.0 :=
  Double.one_sub_bounds (falsePositiveRate_bounds form negatives).1
    (falsePositiveRate_bounds form negatives).2

/-- Under a cap that is not below zero the confidence in a known format keeps
    all bounds. -/
theorem templateConfidence_bounds (hcap : 0.0 ≤ config.templateConfidenceCap) :
    0.0 ≤ templateConfidence config evidence form ∧
      templateConfidence config evidence form ≤ 1.0 ∧
      templateConfidence config evidence form ≤ config.templateConfidenceCap := by
  obtain ⟨hzero, hone⟩ := rejected_bounds form evidence.negatives
  unfold templateConfidence
  dsimp only
  split
  next hless => exact ⟨hzero, hone, Double.le_of_lt hless⟩
  next hmore =>
    have hnumber := (Double.numbers_of_le hcap).2
    have hle := Double.le_of_not_lt (Double.numbers_of_le hone).1 hnumber hmore
    exact ⟨hcap, Double.le_trans hle hone, Double.le_refl hnumber⟩

/-- Any other cap is the confidence in a known format. -/
theorem templateConfidence_eq_cap (hcap : ¬ 0.0 ≤ config.templateConfidenceCap) :
    templateConfidence config evidence form = config.templateConfidenceCap := by
  refine if_neg fun hless => hcap ?_
  exact Double.le_trans (rejected_bounds form evidence.negatives).1 (Double.le_of_lt hless)

end Scores

/-! ## Section 2: The bounds of a candidate -/

/-- The confidence lies between zero and one, and that in a known format is
    not greater than the cap. -/
structure Candidate.IsBounded (config : InferenceConfig) (c : Candidate) : Prop where
  nonneg : 0.0 ≤ c.confidence
  le_one : c.confidence ≤ 1.0
  le_cap : c.source = .template → c.confidence ≤ config.templateConfidenceCap

section Bounded

variable {config : InferenceConfig} {evidence : Evidence} {c : Candidate}

theorem isBounded_of_mem_shapeCandidates (hc : c ∈ shapeCandidates config evidence) :
    c.IsBounded config := by
  have hsource := source_of_mem_shapeCandidates hc
  obtain ⟨group, -, rfl⟩ := List.mem_map.mp hc
  obtain ⟨hzero, hone⟩ := clamped_bounds (share group.length evidence.examples.length
    * (1.0 - config.rangePenalty * (ShapeForm.ofRuns group).ranged.toFloat)
    * (1.0 - falsePositiveRate (ShapeForm.ofRuns group).form evidence.negatives))
  exact ⟨hzero, hone, fun htemplate => CandidateSource.noConfusion (hsource.symm.trans htemplate)⟩

theorem isBounded_of_mem_templateCandidates (hcap : 0.0 ≤ config.templateConfidenceCap)
    (hc : c ∈ templateCandidates config evidence) : c.IsBounded config := by
  obtain ⟨t, -, rfl⟩ := mem_templateCandidates hc
  obtain ⟨hzero, hone, hle⟩ := templateConfidence_bounds evidence t.form hcap
  exact ⟨hzero, hone, fun _ => hle⟩

theorem confidence_of_mem_templateCandidates (hcap : ¬ 0.0 ≤ config.templateConfidenceCap)
    (hc : c ∈ templateCandidates config evidence) :
    c.confidence = config.templateConfidenceCap := by
  obtain ⟨t, -, rfl⟩ := mem_templateCandidates hc
  exact templateConfidence_eq_cap evidence t.form hcap

/-- Of the candidates that are made, known formats break the bounds if the cap
    is not at least zero, and no others do. -/
theorem isBounded_iff (hc : c ∈ madeCandidates config evidence) :
    c.IsBounded config ↔ c.source = .shape ∨ 0.0 ≤ config.templateConfidenceCap := by
  rcases List.mem_append.mp hc with hshape | htemplate
  · exact iff_of_true (isBounded_of_mem_shapeCandidates hshape)
      (.inl (source_of_mem_shapeCandidates hshape))
  · have hsource := source_of_mem_templateCandidates htemplate
    by_cases hcap : 0.0 ≤ config.templateConfidenceCap
    · exact iff_of_true (isBounded_of_mem_templateCandidates hcap htemplate) (.inr hcap)
    · refine iff_of_false (fun hbounded => hcap ?_) ?_
      · rw [← confidence_of_mem_templateCandidates hcap htemplate]
        exact hbounded.nonneg
      · simp [hsource, hcap]

/-- What breaks the bounds has the cap as its confidence. -/
theorem confidence_eq_cap (hc : c ∈ madeCandidates config evidence)
    (hbroken : ¬ c.IsBounded config) : c.confidence = config.templateConfidenceCap := by
  rw [isBounded_iff hc, not_or] at hbroken
  rcases List.mem_append.mp hc with hshape | htemplate
  · exact absurd (source_of_mem_shapeCandidates hshape) hbroken.1
  · exact confidence_of_mem_templateCandidates hbroken.2 htemplate

/-- No confidence exceeds one, and in a known format none exceeds the cap. -/
theorem not_lt_confidence (hc : c ∈ madeCandidates config evidence) :
    ¬ 1.0 < c.confidence ∧
      (c.source = .template → ¬ config.templateConfidenceCap < c.confidence) := by
  by_cases hbounded : c.IsBounded config
  · exact ⟨Double.not_lt_of_le hbounded.le_one,
      fun htemplate => Double.not_lt_of_le (hbounded.le_cap htemplate)⟩
  · rw [confidence_eq_cap hc hbounded]
    refine ⟨fun hless => hbounded ((isBounded_iff hc).mpr (.inr ?_)), fun _ => Double.lt_irrefl _⟩
    exact Double.le_trans Double.one_bounds.1 (Double.le_of_lt hless)

end Bounded

/-- The bounds hold for shapes under every configuration, and for known
    formats exactly under a cap that is not below zero.  Where they are
    broken, the confidence is the cap; it never exceeds one or the cap. -/
theorem inferAll_isBounded_iff (config : InferenceConfig) {evidence : Evidence}
    (hsome : evidence.examples ≠ []) :
    ∃ cs, inferAll config evidence = .ok cs ∧ ∀ c ∈ cs,
      (c.IsBounded config ↔ c.source = .shape ∨ 0.0 ≤ config.templateConfidenceCap) ∧
      (¬ c.IsBounded config → c.confidence = config.templateConfidenceCap) ∧
      ¬ 1.0 < c.confidence ∧
      (c.source = .template → ¬ config.templateConfidenceCap < c.confidence) := by
  refine ⟨_, inferAll_eq config hsome, fun c hc => ?_⟩
  have hmade := mem_of_kept hc
  exact ⟨isBounded_iff hmade, confidence_eq_cap hmade, not_lt_confidence hmade⟩

/-- A time, for which a shape and a known format are offered. -/
theorem inferAll_isBounded_of_time :
    ∃ cs, inferAll .standard ⟨["12:30".toList], ["99:99".toList]⟩ = .ok cs ∧
      (∃ c ∈ cs, c.source = .template) ∧ ∀ c ∈ cs, c.IsBounded .standard := by
  have hsome : (⟨["12:30".toList], ["99:99".toList]⟩ : Evidence).examples ≠ [] := by decide
  obtain ⟨cs, hcs, hbounds⟩ := inferAll_isBounded_iff .standard hsome
  refine ⟨cs, hcs, ?_, fun c hc => (hbounds c hc).1.mpr (.inr (by decide +kernel))⟩
  rw [inferAll_eq .standard hsome] at hcs
  cases hcs
  exact exists_kept_template (t := .timeShort) rfl (by simp [Template.all])
    (by decide +kernel) (by decide +kernel)

/-- Settings that are accepted, under which the confidence in a known format is
    below zero. -/
theorem not_isBounded_of_negative_cap :
    ∃ config cs,
      { InferenceSettings.standard with templateConfidenceCap := -1.0 }.check = .ok config ∧
      inferAll config ⟨["12:30".toList], []⟩ = .ok cs ∧
      ∃ c ∈ cs, c.source = .template ∧ c.confidence = -1.0 ∧ ¬ 0.0 ≤ c.confidence := by
  have hsome : (⟨["12:30".toList], []⟩ : Evidence).examples ≠ [] := by decide
  have hnegative : ¬ (0.0 : Float) ≤ -1.0 := by decide +kernel
  obtain ⟨c, hc, hsource⟩ : ∃ c ∈ distinctPatterns (ranked (madeCandidates
      { InferenceConfig.standard with templateConfidenceCap := -1.0 } ⟨["12:30".toList], []⟩)),
      c.source = .template :=
    exists_kept_template (t := .timeShort) rfl (by simp [Template.all]) (by decide +kernel)
      (by decide +kernel)
  have hconfidence : c.confidence = -1.0 := by
    refine confidence_eq_cap (mem_of_kept hc) fun hbounded => ?_
    rw [isBounded_iff (mem_of_kept hc), hsource] at hbounded
    exact hnegative (hbounded.resolve_left CandidateSource.noConfusion)
  refine ⟨{ InferenceConfig.standard with templateConfidenceCap := -1.0 }, _, rfl,
    inferAll_eq _ hsome, c, hc, hsource, hconfidence, ?_⟩
  rw [hconfidence]
  exact hnegative

end RegexInsight
