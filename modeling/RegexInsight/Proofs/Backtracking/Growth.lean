import Mathlib
import RegexInsight.Backtracking.Growth

/-! # The risk that samples show

    The risk of a run is decided by its elevated steps: one of them makes
    the run suspicious, two in a row make it catastrophic.  Both are found
    in a part of the run, that is in neighbouring samples, so that later
    samples take nothing back, and a lower threshold elevates whatever a
    higher one does.  Times are exact numbers, those of an ordered field. -/

namespace RegexInsight

/-! ## Section 1: Elevated steps -/

section Steps

variable {α : Type} [LE α] [DecidableLE α] [Div α] {threshold floor : α}
  {samples : List (Sample α)}

/-- An elevated step is one between two neighbouring samples. -/
theorem mem_elevatedSteps_iff :
    true ∈ elevatedSteps threshold floor samples ↔
      ∃ a b, [a, b] <:+: samples ∧ isElevated threshold floor a b = true := by
  fun_induction elevatedSteps threshold floor samples with
  | case1 first second rest ih =>
    simp only [List.mem_cons, ih, List.infix_cons_iff, List.cons_prefix_cons, List.nil_prefix]
    constructor
    · rintro (hhere | ⟨a, b, hpair, helevated⟩)
      · exact ⟨first, second, .inl ⟨rfl, rfl, trivial⟩, hhere.symm⟩
      · exact ⟨a, b, .inr hpair, helevated⟩
    · rintro ⟨a, b, ⟨rfl, rfl, -⟩ | hpair, helevated⟩
      · exact .inl helevated.symm
      · exact .inr ⟨a, b, hpair, helevated⟩
  | case2 samples hshort =>
    -- with fewer than two samples there is no step
    refine iff_of_false List.not_mem_nil ?_
    rintro ⟨a, b, hpair, -⟩
    match samples with
    | [] => exact absurd hpair.length_le (by simp)
    | [only] => exact absurd hpair.length_le (by simp)
    | first :: second :: rest => exact hshort first second rest rfl

/-- Two elevated steps in a row join three neighbouring samples. -/
theorem twoInARow_elevatedSteps_iff :
    twoInARow (elevatedSteps threshold floor samples) = true ↔
      ∃ a b c, [a, b, c] <:+: samples ∧ isElevated threshold floor a b = true ∧
        isElevated threshold floor b c = true := by
  induction samples with
  | nil => simp [elevatedSteps, twoInARow]
  | cons first rest ih =>
    match rest with
    | [] => simp [elevatedSteps, twoInARow, List.infix_cons_iff]
    | [second] => simp [elevatedSteps, twoInARow, List.infix_cons_iff]
    | second :: third :: rest =>
      -- the first two steps are the pair, or the pair comes later
      have hstep : twoInARow (elevatedSteps threshold floor (first :: second :: third :: rest)) =
          (isElevated threshold floor first second && isElevated threshold floor second third ||
            twoInARow (elevatedSteps threshold floor (second :: third :: rest))) := rfl
      have hsplit : ∀ a b c, [a, b, c] <:+: first :: second :: third :: rest ↔
          [a, b, c] <+: first :: second :: third :: rest ∨
            [a, b, c] <:+: second :: third :: rest := fun _ _ _ => List.infix_cons_iff
      rw [hstep, Bool.or_eq_true, Bool.and_eq_true, ih]
      simp only [hsplit, List.cons_prefix_cons, List.nil_prefix]
      constructor
      · rintro (⟨hfirst, hsecond⟩ | ⟨a, b, c, htriple, helevated⟩)
        · exact ⟨first, second, third, .inl ⟨rfl, rfl, rfl, trivial⟩, hfirst, hsecond⟩
        · exact ⟨a, b, c, .inr htriple, helevated⟩
      · rintro ⟨a, b, c, ⟨rfl, rfl, rfl, -⟩ | htriple, helevated⟩
        · exact .inl helevated
        · exact .inr ⟨a, b, c, htriple, helevated⟩

/-- A run that was not cut off is catastrophic exactly when two steps in a
    row are elevated. -/
theorem classifySamples_eq_catastrophic_iff :
    classifySamples threshold floor false samples = .catastrophic ↔
      ∃ a b c, [a, b, c] <:+: samples ∧ isElevated threshold floor a b = true ∧
        isElevated threshold floor b c = true := by
  rw [← twoInARow_elevatedSteps_iff, classifySamples]
  split_ifs <;> simp_all

/-- A run that was not cut off is safe exactly when no step is elevated. -/
theorem classifySamples_eq_safe_iff :
    classifySamples threshold floor false samples = .safe ↔
      ∀ a b, [a, b] <:+: samples → isElevated threshold floor a b = false := by
  have hsafe : classifySamples threshold floor false samples = .safe ↔
      true ∉ elevatedSteps threshold floor samples := by
    have hany : (elevatedSteps threshold floor samples).any id = true ↔
        true ∈ elevatedSteps threshold floor samples := by simp
    have htwo : twoInARow (elevatedSteps threshold floor samples) = true →
        true ∈ elevatedSteps threshold floor samples := by
      rw [twoInARow_elevatedSteps_iff, mem_elevatedSteps_iff]
      rintro ⟨a, b, c, htriple, helevated, -⟩
      exact ⟨a, b, .trans ⟨[], [c], rfl⟩ htriple, helevated⟩
    rw [← hany, classifySamples]
    split_ifs <;> simp_all
  rw [hsafe, mem_elevatedSteps_iff]
  simp

end Steps

/-! ## Section 2: More samples, lower thresholds -/

/-- A risk that is not safe wherever another one is not, and catastrophic
    wherever the other one is, is no lower. -/
theorem BacktrackRisk.rank_le_rank {r r' : BacktrackRisk} (hsafe : r' = .safe → r = .safe)
    (hcatastrophic : r = .catastrophic → r' = .catastrophic) : r.rank ≤ r'.rank := by
  cases r <;> cases r' <;> simp_all [rank]

section Order

variable {α : Type} [LE α] [DecidableLE α] [Div α] {threshold threshold' floor : α}
  {samples samples' : List (Sample α)}

/-- A run with the elevated steps of another one, and perhaps with more, is
    of no lower risk. -/
theorem rank_classifySamples_le (aborted : Bool)
    (hsteps : ∀ a b, [a, b] <:+: samples → isElevated threshold floor a b = true →
      [a, b] <:+: samples' ∧ isElevated threshold' floor a b = true)
    (hsamples : ∀ a b c, [a, b, c] <:+: samples → [a, b, c] <:+: samples') :
    (classifySamples threshold floor aborted samples).rank ≤
      (classifySamples threshold' floor aborted samples').rank := by
  cases aborted with
  | true => exact Nat.le_refl _
  | false =>
    apply BacktrackRisk.rank_le_rank
    · rw [classifySamples_eq_safe_iff, classifySamples_eq_safe_iff]
      intro hsafe a b hpair
      by_contra helevated
      obtain ⟨hpair', helevated'⟩ := hsteps a b hpair (by simpa using helevated)
      exact Bool.false_ne_true ((hsafe a b hpair').symm.trans helevated')
    · rw [classifySamples_eq_catastrophic_iff, classifySamples_eq_catastrophic_iff]
      rintro ⟨a, b, c, htriple, hfirst, hsecond⟩
      have hleft : [a, b] <:+: samples := .trans ⟨[], [c], rfl⟩ htriple
      have hright : [b, c] <:+: samples := .trans ⟨[a], [], rfl⟩ htriple
      exact ⟨a, b, c, hsamples a b c htriple, (hsteps a b hleft hfirst).2,
        (hsteps b c hright hsecond).2⟩

end Order

/-! ## Section 3: Exact times -/

theorem floored_eq_max {α : Type} [LinearOrder α] (floor time : α) :
    floored floor time = max time floor := by
  unfold floored
  split
  next hle => rw [max_eq_right hle]
  next hlt => rw [max_eq_left (le_of_lt (not_le.mp hlt))]

section Exact

variable {α : Type} [Field α] [LinearOrder α] [IsStrictOrderedRing α]
  {threshold threshold' floor : α} {a b : Sample α}

/-- A step is elevated when the later time is no noise and at least the
    threshold times the earlier one, raised to the floor. -/
theorem isElevated_iff (hfloor : 0 < floor) :
    isElevated threshold floor a b = true ↔
      threshold * max a.elapsed floor ≤ b.elapsed ∧ floor ≤ b.elapsed := by
  have hpos : 0 < max a.elapsed floor := lt_max_of_lt_right hfloor
  simp only [isElevated, growthRatio, floored_eq_max, Bool.and_eq_true, decide_eq_true_eq,
    le_div_iff₀ hpos]

/-- A lower threshold elevates no fewer steps. -/
theorem isElevated_of_le (hfloor : 0 < floor) (hle : threshold' ≤ threshold)
    (h : isElevated threshold floor a b = true) : isElevated threshold' floor a b = true := by
  rw [isElevated_iff hfloor] at h ⊢
  have hpos : 0 ≤ max a.elapsed floor := le_max_of_le_right hfloor.le
  exact ⟨(mul_le_mul_of_nonneg_right hle hpos).trans h.1, h.2⟩

/-- A time that at most doubles stays below any threshold above two. -/
theorem isElevated_of_doubling (hfloor : 0 < floor) (hthreshold : 2 < threshold)
    (hdouble : b.elapsed ≤ 2 * a.elapsed) : isElevated threshold floor a b = false := by
  rw [← Bool.not_eq_true, isElevated_iff hfloor]
  rintro ⟨hgrowth, -⟩
  have hpos : 0 < max a.elapsed floor := lt_max_of_lt_right hfloor
  have hbelow : 2 * max a.elapsed floor < threshold * max a.elapsed floor :=
    mul_lt_mul_of_pos_right hthreshold hpos
  have hraised : 2 * a.elapsed ≤ 2 * max a.elapsed floor :=
    mul_le_mul_of_nonneg_left (le_max_left _ _) zero_le_two
  exact absurd (hgrowth.trans hdouble) (not_le.mpr (hraised.trans_lt hbelow))

/-- Between times that are no noise, growth by the threshold elevates. -/
theorem isElevated_of_growth (hfloor : 0 < floor) (ha : floor ≤ a.elapsed)
    (hb : floor ≤ b.elapsed) (hgrowth : threshold * a.elapsed ≤ b.elapsed) :
    isElevated threshold floor a b = true := by
  rw [isElevated_iff hfloor, max_eq_left ha]
  exact ⟨hgrowth, hb⟩

/-- A classification of runs that more samples and lower thresholds never
    make milder, and that neither noise nor linear growth disturbs. -/
structure IsRobust (floor : α)
    (classify : α → Bool → List (Sample α) → BacktrackRisk) : Prop where
  appended : ∀ threshold aborted samples later, (classify threshold aborted samples).rank ≤
    (classify threshold aborted (samples ++ later)).rank
  lowered : ∀ threshold threshold' aborted samples, threshold' ≤ threshold →
    (classify threshold aborted samples).rank ≤ (classify threshold' aborted samples).rank
  aborted : ∀ threshold samples, classify threshold true samples = .catastrophic
  noise : ∀ threshold samples, (∀ s ∈ samples, s.elapsed < floor) →
    classify threshold false samples = .safe
  linear : ∀ threshold samples, 2 < threshold →
    samples.IsChain (fun a b => b.elapsed ≤ 2 * a.elapsed) →
    classify threshold false samples = .safe
  growing : ∀ threshold samples a b c, [a, b, c] <:+: samples →
    (∀ s ∈ [a, b, c], floor ≤ s.elapsed) → threshold * a.elapsed ≤ b.elapsed →
    threshold * b.elapsed ≤ c.elapsed → classify threshold false samples = .catastrophic

/-- The classification of samples is robust above every positive floor. -/
theorem classifySamples_robust (hfloor : 0 < floor) :
    IsRobust floor fun threshold aborted samples =>
      classifySamples threshold floor aborted samples where
  appended threshold aborted samples later := by
    have hbefore : samples <:+: samples ++ later := (List.prefix_append samples later).isInfix
    refine rank_classifySamples_le aborted (fun a b hpair helevated => ?_) fun a b c htriple => ?_
    · exact ⟨hpair.trans hbefore, helevated⟩
    · exact htriple.trans hbefore
  lowered threshold threshold' aborted samples hle :=
    rank_classifySamples_le aborted
      (fun _ _ hpair helevated => ⟨hpair, isElevated_of_le hfloor hle helevated⟩)
      fun _ _ _ htriple => htriple
  aborted _ _ := rfl
  noise threshold samples hnoise := by
    refine classifySamples_eq_safe_iff.mpr fun a b hpair => ?_
    -- a step up to less than the floor is not elevated
    have hb : b.elapsed < floor := hnoise b (hpair.subset (by simp))
    rw [← Bool.not_eq_true, isElevated_iff hfloor]
    exact fun h => absurd h.2 (not_le.mpr hb)
  linear threshold samples hthreshold hchain := by
    refine classifySamples_eq_safe_iff.mpr fun a b hpair => ?_
    have hdouble : b.elapsed ≤ 2 * a.elapsed := by simpa using hchain.infix hpair
    exact isElevated_of_doubling hfloor hthreshold hdouble
  growing threshold samples a b c htriple hmeasured hfirst hsecond := by
    simp only [List.forall_mem_cons] at hmeasured
    obtain ⟨ha, hb, hc, -⟩ := hmeasured
    exact classifySamples_eq_catastrophic_iff.mpr ⟨a, b, c, htriple,
      isElevated_of_growth hfloor ha hb hfirst, isElevated_of_growth hfloor hb hc hsecond⟩

end Exact

/-- Above a floor of half a millisecond, three measurable samples that grow
    tenfold twice are catastrophic, whatever is measured around them; and
    times that only double are safe. -/
theorem classifySamples_robust_of_tenfold :
    (0 : ℚ) < 1 / 2000 ∧
      classifySamples (8 : ℚ) (1 / 2000) false
        [⟨9, 1 / 10000⟩, ⟨17, 1 / 1000⟩, ⟨33, 1 / 100⟩, ⟨65, 1 / 10⟩, ⟨129, 0⟩] =
          .catastrophic ∧
      classifySamples (8 : ℚ) (1 / 2000) false [⟨9, 1 / 1000⟩, ⟨17, 1 / 500⟩, ⟨33, 1 / 250⟩] =
        .safe := by
  have hfloor : (0 : ℚ) < 1 / 2000 := by norm_num
  have h := classifySamples_robust hfloor
  refine ⟨hfloor, ?_, ?_⟩
  · refine h.growing 8 _ ⟨17, 1 / 1000⟩ ⟨33, 1 / 100⟩ ⟨65, 1 / 10⟩
      ⟨[⟨9, 1 / 10000⟩], [⟨129, 0⟩], rfl⟩ ?_ (by norm_num) (by norm_num)
    simp only [List.forall_mem_cons, List.not_mem_nil, false_imp_iff, implies_true]
    norm_num
  · refine h.linear 8 _ (by norm_num) ?_
    simp only [List.isChain_cons_cons, List.isChain_singleton]
    norm_num

/-- Jumps with a calm step between them are only suspicious. -/
example : classifySamples (8 : ℚ) (1 / 2000) false
    [⟨9, 1 / 1000⟩, ⟨17, 1 / 100⟩, ⟨33, 1 / 50⟩, ⟨65, 1 / 5⟩] = .suspicious := by
  decide +kernel

end RegexInsight
