import Mathlib
import RegexInsight.Proofs.CharSet.Canonical
import RegexInsight.Proofs.CharSet.Membership

/-! # Case and complement

    The members of a set that is closed under ASCII case, and those of a
    complement.  A letter belongs to the closure if it or its partner
    belongs to the set, and a code point to the complement if it does not
    belong to the set. -/

namespace RegexInsight

/-! ## Section 1: Case partners -/

/-- The other-case partner of an ASCII letter. -/
def otherCase? (c : CodePoint) : Option CodePoint :=
  if 'a'.toNat ≤ c ∧ c ≤ 'z'.toNat then some (c - 32)
  else if 'A'.toNat ≤ c ∧ c ≤ 'Z'.toNat then some (c + 32)
  else none

namespace CharSet

/-- The shifted letters of an interval are those whose image under the shift
    back lies in it. -/
theorem exists_mem_shiftedLetters {source target : CodePoint} {i : Interval} {c : CodePoint} :
    (∃ j ∈ shiftedLetters source target i, j.lo ≤ c ∧ c ≤ j.hi) ↔
      ∃ d, i.lo ≤ d ∧ d ≤ i.hi ∧ source ≤ d ∧ d ≤ source + 25 ∧ c + source = d + target := by
  have hinside : ∀ d : Nat, max i.lo source ≤ d ∧ d ≤ min i.hi (source + 25) ↔
      i.lo ≤ d ∧ d ≤ i.hi ∧ source ≤ d ∧ d ≤ source + 25 := by
    intro d
    rw [max_le_iff, le_min_iff]
    tauto
  have hsource : source ≤ max i.lo source := le_max_right _ _
  unfold shiftedLetters
  dsimp only
  -- the letters of the interval are again an interval, or there are none
  generalize max i.lo source = lo at *
  generalize min i.hi (source + 25) = hi at *
  dsimp only [CodePoint] at *
  split
  next hle =>
    simp only [List.mem_singleton, exists_eq_left]
    constructor
    · intro hc
      have hd := (hinside (c + source - target)).mp (by omega)
      exact ⟨c + source - target, by omega⟩
    · intro hsome
      obtain ⟨d, hd⟩ := hsome
      have hbounds := (hinside d).mpr (by omega)
      omega
  next hle =>
    simp only [List.not_mem_nil, false_and, exists_false, false_iff]
    intro hsome
    obtain ⟨d, hd⟩ := hsome
    have hbounds := (hinside d).mpr (by omega)
    omega

theorem otherCase?_eq_some_iff {c d : CodePoint} :
    otherCase? c = some d ↔
      (97 ≤ d ∧ d ≤ 97 + 25 ∧ c + 97 = d + 65) ∨ (65 ≤ d ∧ d ≤ 65 + 25 ∧ c + 65 = d + 97) := by
  have ha : 'a'.toNat = 97 := rfl
  have hz : 'z'.toNat = 122 := rfl
  have hA : 'A'.toNat = 65 := rfl
  have hZ : 'Z'.toNat = 90 := rfl
  unfold otherCase?
  rw [ha, hz, hA, hZ]
  split_ifs <;> simp only [Option.some.injEq, false_iff] <;>
    dsimp only [CodePoint] at * <;> omega

/-- The closure of a set under ASCII case has its members and their
    partners. -/
theorem contains_withOtherCase {a : CharSet} {c : CodePoint} :
    a.withOtherCase.contains c = true ↔
      a.contains c = true ∨ ∃ d, otherCase? c = some d ∧ a.contains d = true := by
  -- the intervals that are added hold the partners of the members
  have hpartners : (∃ j ∈ a.intervals.flatMap fun i =>
        shiftedLetters 97 65 i ++ shiftedLetters 65 97 i, j.lo ≤ c ∧ c ≤ j.hi) ↔
      ∃ d, otherCase? c = some d ∧ a.contains d = true := by
    simp only [List.mem_flatMap, List.mem_append, contains_iff, otherCase?_eq_some_iff]
    constructor
    · rintro ⟨j, ⟨i, hi, hj | hj⟩, hc⟩
      · obtain ⟨d, hlo, hhi, hshift⟩ := exists_mem_shiftedLetters.mp ⟨j, hj, hc⟩
        exact ⟨d, .inl hshift, i, hi, hlo, hhi⟩
      · obtain ⟨d, hlo, hhi, hshift⟩ := exists_mem_shiftedLetters.mp ⟨j, hj, hc⟩
        exact ⟨d, .inr hshift, i, hi, hlo, hhi⟩
    · rintro ⟨d, hshift | hshift, i, hi, hlo, hhi⟩
      · obtain ⟨j, hj, hc⟩ := exists_mem_shiftedLetters.mpr ⟨d, hlo, hhi, hshift⟩
        exact ⟨j, ⟨i, hi, .inl hj⟩, hc⟩
      · obtain ⟨j, hj, hc⟩ := exists_mem_shiftedLetters.mpr ⟨d, hlo, hhi, hshift⟩
        exact ⟨j, ⟨i, hi, .inr hj⟩, hc⟩
  rw [← hpartners]
  unfold withOtherCase
  dsimp only
  split
  next hempty =>
    rw [List.isEmpty_iff.mp hempty]
    simp
  next =>
    rw [show a.union ⟨_⟩ = a ∪ ⟨_⟩ from rfl, contains_union]
    exact or_congr_right contains_iff

/-! ## Section 2: Complements -/

/-- What lies in a gap lies in no interval, also behind the largest code
    point. -/
theorem not_covered_of_gap {intervals : List Interval} (h : Ascending intervals)
    {start point : CodePoint} (hstart : ∀ i ∈ intervals, start ≤ i.lo)
    (hgap : Covered (gaps start intervals) point) : ¬ Covered intervals point := by
  induction intervals generalizing start with
  | nil =>
    intro hcovered
    obtain ⟨i, hi, -⟩ := hcovered
    exact absurd hi List.not_mem_nil
  | cons i rest ih =>
    obtain ⟨hi, hbehind, hrest⟩ := ascending_cons.mp h
    -- a later gap begins behind the first interval
    have hlater : Covered (gaps (i.hi + 1) rest) point → ¬ Covered (i :: rest) point := by
      intro hcovered
      have hfree := ih hrest hbehind hcovered
      obtain ⟨gap, hmem, hlo, -⟩ := hcovered
      have hle := (canonical_gaps hrest hbehind).2 gap hmem
      rw [covered_cons]
      intro hsome
      rcases hsome with hfirst | hcovered
      · dsimp only [CodePoint] at *
        omega
      · exact hfree hcovered
    by_cases hbefore : start < i.lo
    · rw [gaps, if_pos hbefore, covered_cons] at hgap
      rcases hgap with hfirst | hcovered
      · intro hcovered
        have hle := le_of_covered h hcovered
        dsimp only [CodePoint] at *
        omega
      · exact hlater hcovered
    · rw [gaps, if_neg hbefore] at hgap
      exact hlater hgap

/-- Up to the largest code point, what lies in no interval from `start` on lies
    in a gap. -/
theorem covered_gaps_of_not_covered {intervals : List Interval} {start point : CodePoint}
    (hstart : start ≤ point) (hpoint : point ≤ maxCodePoint) (hfree : ¬ Covered intervals point) :
    Covered (gaps start intervals) point := by
  induction intervals generalizing start with
  | nil =>
    rw [gaps, if_pos (Nat.le_trans hstart hpoint)]
    exact covered_cons.mpr (.inl ⟨hstart, hpoint⟩)
  | cons i rest ih =>
    obtain ⟨hout, hrest⟩ := not_or.mp (mt covered_cons.mpr hfree)
    unfold gaps
    by_cases hbefore : point < i.lo
    · rw [if_pos (Nat.lt_of_le_of_lt hstart hbefore), covered_cons]
      exact .inl ⟨hstart, Nat.le_sub_one_of_lt hbefore⟩
    · have hbehind : i.hi + 1 ≤ point := by
        dsimp only [CodePoint] at *
        omega
      have hlater := ih hbehind hrest
      split
      · exact covered_cons.mpr (.inr hlater)
      · exact hlater

theorem contains_complement {a : CharSet} (h : a.IsCanonical) {c : CodePoint}
    (hc : c ≤ maxCodePoint) : a.complement.contains c = true ↔ a.contains c ≠ true := by
  rw [ne_eq, contains_iff, contains_iff]
  constructor
  · exact not_covered_of_gap h.ascending fun _ _ => Nat.zero_le _
  · exact covered_gaps_of_not_covered (Nat.zero_le c) hc

end CharSet

/-! ## Section 3: Ignoring case -/

/-- What a property of code points becomes where case may be ignored: the
    partner of a letter counts, too. -/
def UpToCase (ignored : Prop) (P : CodePoint → Prop) (c : CodePoint) : Prop :=
  P c ∨ ignored ∧ ∃ d, otherCase? c = some d ∧ P d

/-- A code point and its case partner are code points. -/
theorem UpToCase.congr {ignored : Prop} {P Q : CodePoint → Prop} {c : CodePoint}
    (hc : c ≤ maxCodePoint) (h : ∀ d ≤ maxCodePoint, P d ↔ Q d) :
    UpToCase ignored P c ↔ UpToCase ignored Q c := by
  unfold UpToCase
  rw [h c hc]
  refine or_congr_right (and_congr_right fun _ => exists_congr fun d => ?_)
  refine and_congr_right fun hd => ?_
  refine h d ?_
  have hcase := CharSet.otherCase?_eq_some_iff.mp hd
  dsimp only [maxCodePoint, CodePoint] at *
  omega

theorem Modes.contains_accepts {modes : Modes} {chars : CharSet} {c : CodePoint} :
    (modes.accepts chars).contains c = true ↔
      UpToCase (modes.ignoreCase = true) (fun d => chars.contains d = true) c := by
  unfold accepts UpToCase
  split
  next hcase => simp [hcase, CharSet.contains_withOtherCase]
  next hcase => simp [hcase]

end RegexInsight
