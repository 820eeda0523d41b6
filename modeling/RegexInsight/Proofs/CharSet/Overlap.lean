import Mathlib
import RegexInsight.Proofs.CharSet.OtherCase

/-! # The overlap of character sets

    The sweep over two lists of intervals only needs them in ascending
    order: it finds a common member if there is one, whether or not
    adjacent intervals are joined.  So the overlap test says of two sets
    what it says of their members, and its laws are those of having a
    member in common. -/

namespace RegexInsight

namespace CharSet

variable {a b c : CharSet}

/-! ## Section 1: A set and its complement -/

theorem not_contains_of_contains_complement (h : a.IsAscending) {point : CodePoint}
    (hpoint : a.complement.contains point = true) : ¬ a.contains point = true := by
  rw [contains_iff] at hpoint ⊢
  exact not_covered_of_gap h (fun _ _ => Nat.zero_le _) hpoint

theorem IsAscending.complement (h : a.IsAscending) : a.complement.IsAscending :=
  (canonical_gaps h fun _ _ => Nat.zero_le _).1.ascending

/-! ## Section 2: Laws of the test -/

theorem intersects_comm (ha : a.IsAscending) (hb : b.IsAscending) :
    a.intersects b = b.intersects a := by
  apply Bool.eq_iff_iff.mpr
  rw [intersects_iff_of_isAscending ha hb, intersects_iff_of_isAscending hb ha]
  simp only [and_comm]

theorem intersects_complement (h : a.IsAscending) : a.intersects a.complement = false := by
  apply Bool.eq_false_iff.mpr
  intro hmeets
  obtain ⟨point, hmem, hout⟩ := (intersects_iff_of_isAscending h h.complement).mp hmeets
  exact not_contains_of_contains_complement h hout hmem

theorem intersects_union (ha : a.IsAscending) (hb : b.IsAscending) (hc : c.IsAscending) :
    a.intersects (b ∪ c) = (a.intersects b || a.intersects c) := by
  have hunion : (b ∪ c).IsAscending := (isCanonical_union b c).isAscending
  apply Bool.eq_iff_iff.mpr
  rw [Bool.or_eq_true, intersects_iff_of_isAscending ha hunion,
    intersects_iff_of_isAscending ha hb, intersects_iff_of_isAscending ha hc, ← exists_or]
  apply exists_congr
  intro point
  rw [contains_union, and_or_left]

/-- For sets whose intervals stand in ascending order the overlap test is
    exact: it succeeds if some code point belongs to both.  Hence it does not
    matter which set comes first, no set meets its complement, and a set meets
    a union if it meets one of the two sets. -/
theorem intersects_exact (ha : a.IsAscending) (hb : b.IsAscending) (hc : c.IsAscending) :
    (a.intersects b = true ↔ ∃ point, a.contains point = true ∧ b.contains point = true) ∧
    a.intersects b = b.intersects a ∧
    a.intersects a.complement = false ∧
    a.intersects (b ∪ c) = (a.intersects b || a.intersects c) :=
  ⟨intersects_iff_of_isAscending ha hb, intersects_comm ha hb, intersects_complement ha,
    intersects_union ha hb hc⟩

/-- Digits in two adjacent intervals and some letters meet neither the marks
    between them nor their own complement, but they meet the letters from `f`
    on. -/
theorem intersects_exact_of_digits :
    let digits : CharSet := ⟨[⟨0x30, 0x32⟩, ⟨0x33, 0x39⟩, ⟨0x61, 0x66⟩]⟩
    let marks : CharSet := ⟨[⟨0x3A, 0x40⟩, ⟨0x5B, 0x60⟩]⟩
    let letters : CharSet := ⟨[⟨0x41, 0x5A⟩, ⟨0x66, 0x7A⟩]⟩
    digits.IsAscending ∧ marks.IsAscending ∧ letters.IsAscending ∧
    digits.intersects letters = true ∧ letters.intersects digits = true ∧
    digits.intersects digits.complement = false ∧
    digits.intersects (marks ∪ letters) = true := by
  intro digits marks letters
  have hdigits : digits.IsAscending := ⟨by decide, by decide⟩
  have hmarks : marks.IsAscending := ⟨by decide, by decide⟩
  have hletters : letters.IsAscending := ⟨by decide, by decide⟩
  obtain ⟨hexact, hcomm, hcomplement, -⟩ := intersects_exact hdigits hletters hmarks
  obtain ⟨-, -, -, hunion⟩ := intersects_exact hdigits hmarks hletters
  have hmeets : digits.intersects letters = true := hexact.mpr ⟨0x66, by decide, by decide⟩
  refine ⟨hdigits, hmarks, hletters, hmeets, hcomm.symm.trans hmeets, hcomplement, ?_⟩
  rw [hunion, hmeets, Bool.or_true]

end CharSet

end RegexInsight
