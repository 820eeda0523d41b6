import Mathlib
import RegexInsight.CharSet.Named

/-! # Membership in character sets

    Whatever the intervals it is built from, a set has exactly their
    members: sorting and fusing change how the members are written down
    and nothing else. -/

namespace RegexInsight

namespace CharSet

/-! ## Section 1: Fusing -/

theorem contains_iff {a : CharSet} {c : CodePoint} :
    a.contains c = true ↔ ∃ i ∈ a.intervals, i.lo ≤ c ∧ c ≤ i.hi := by
  simp [contains, Interval.contains]

/-- Fusing intervals that are sorted by their lower ends keeps the members. -/
theorem exists_mem_fuse {current : Interval} {rest : List Interval}
    (hsorted : (current :: rest).Pairwise fun i j => i.lo ≤ j.lo) {c : CodePoint} :
    (∃ i ∈ fuse current rest, i.lo ≤ c ∧ c ≤ i.hi) ↔
      ∃ i ∈ current :: rest, i.lo ≤ c ∧ c ≤ i.hi := by
  induction rest generalizing current with
  | nil => rfl
  | cons next rest ih =>
    obtain ⟨hbelow, hrest⟩ := List.pairwise_cons.mp hsorted
    have hnext : current.lo ≤ next.lo := hbelow next List.mem_cons_self
    unfold fuse
    split
    next htouch =>
      have hfused : (⟨current.lo, max current.hi next.hi⟩ :: rest).Pairwise
          fun i j : Interval => i.lo ≤ j.lo := by
        refine List.pairwise_cons.mpr ⟨fun i hi => ?_, (List.pairwise_cons.mp hrest).2⟩
        exact hbelow i (List.mem_cons_of_mem _ hi)
      rw [ih hfused]
      -- no point lies between the two intervals
      have hboth : (current.lo ≤ c ∧ c ≤ max current.hi next.hi) ↔
          (current.lo ≤ c ∧ c ≤ current.hi) ∨ (next.lo ≤ c ∧ c ≤ next.hi) := by
        dsimp only [CodePoint] at *
        omega
      simp only [List.exists_mem_cons_iff, hboth, or_assoc]
    next =>
      simp only [List.exists_mem_cons_iff, ih hrest]

theorem exists_mem_fuseAll {intervals : List Interval}
    (hsorted : intervals.Pairwise fun i j => i.lo ≤ j.lo) {c : CodePoint} :
    (∃ i ∈ fuseAll intervals, i.lo ≤ c ∧ c ≤ i.hi) ↔
      ∃ i ∈ intervals, i.lo ≤ c ∧ c ≤ i.hi := by
  cases intervals with
  | nil => rfl
  | cons first rest => exact exists_mem_fuse hsorted

theorem pairwise_mergeSort_lo (intervals : List Interval) :
    (intervals.mergeSort Interval.le).Pairwise fun i j => i.lo ≤ j.lo := by
  refine (List.pairwise_mergeSort ?_ ?_ intervals).imp fun {i j} hle => ?_
  all_goals
    simp only [Interval.le, Bool.or_eq_true, Bool.and_eq_true, decide_eq_true_eq,
      beq_iff_eq, CodePoint] at *
    grind

/-! ## Section 2: Members of the sets that are built -/

theorem contains_ofIntervals {intervals : List Interval} {c : CodePoint} :
    (ofIntervals intervals).contains c = true ↔ ∃ i ∈ intervals, i.lo ≤ c ∧ c ≤ i.hi := by
  rw [contains_iff, ofIntervals, exists_mem_fuseAll (pairwise_mergeSort_lo _)]
  simp only [(List.mergeSort_perm _ _).mem_iff, List.mem_filter, decide_eq_true_eq]
  constructor
  · intro hsome
    obtain ⟨i, ⟨hi, -⟩, hc⟩ := hsome
    exact ⟨i, hi, hc⟩
  · intro hsome
    obtain ⟨i, hi, hc⟩ := hsome
    exact ⟨i, ⟨hi, hc.1.trans hc.2⟩, hc⟩

@[simp] theorem contains_empty (c : CodePoint) : empty.contains c = false := rfl

theorem contains_everything {c : CodePoint} : everything.contains c = true ↔ c ≤ maxCodePoint := by
  simp [contains_iff, everything]

theorem contains_single {point c : CodePoint} : (single point).contains c = true ↔ c = point := by
  simp [single, ofPoints, contains_ofIntervals, Nat.le_antisymm_iff, and_comm]

theorem contains_union {a b : CharSet} {c : CodePoint} :
    (a ∪ b).contains c = true ↔ a.contains c = true ∨ b.contains c = true := by
  show (ofIntervals (a.intervals ++ b.intervals)).contains c = true ↔ _
  rw [contains_ofIntervals, contains_iff, contains_iff]
  simp only [List.mem_append, or_and_right, exists_or]

theorem contains_unionAll {sets : List CharSet} {c : CodePoint} :
    (unionAll sets).contains c = true ↔ ∃ a ∈ sets, a.contains c = true := by
  rw [unionAll, contains_ofIntervals]
  simp only [contains_iff, List.mem_flatMap]
  constructor
  · intro hsome
    obtain ⟨i, ⟨a, ha, hi⟩, hc⟩ := hsome
    exact ⟨a, ha, i, hi, hc⟩
  · intro hsome
    obtain ⟨a, ha, i, hi, hc⟩ := hsome
    exact ⟨i, ⟨a, ha, hi⟩, hc⟩

/-- Adding case partners removes no member. -/
theorem contains_withOtherCase_of_contains {a : CharSet} {c : CodePoint}
    (h : a.contains c = true) : a.withOtherCase.contains c = true := by
  unfold withOtherCase
  dsimp only
  split
  · exact h
  · exact contains_union.mpr (.inl h)

end CharSet

end RegexInsight
