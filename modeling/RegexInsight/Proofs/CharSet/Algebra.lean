import Mathlib
import RegexInsight.Proofs.CharSet.OtherCase

/-! # The algebra of character sets

    Two sets in canonical form with the same members list the same
    intervals: the first interval begins with the least member and ends
    before the first code point that is missing, and what follows is the
    canonical form of the members behind it.  So a set in canonical form
    stands for its members, and the laws of union, complement and case
    closure are those of propositions about members. -/

namespace RegexInsight

/-! ## Section 1: One form for the same members -/

section Extensionality

open CharSet (Covered covered_cons le_of_covered)

variable {i : Interval} {rest as bs : List Interval} {c : CodePoint}

/-- The code point behind the first interval is missing. -/
theorem Canonical.not_covered_succ (h : Canonical (i :: rest)) :
    ¬ Covered (i :: rest) (i.hi + 1) := by
  obtain ⟨-, happart, -⟩ := canonical_cons.mp h
  rw [covered_cons, not_or]
  constructor
  · dsimp only [CodePoint] at *
    omega
  · rintro ⟨j, hj, hlo, -⟩
    have hlt := happart j hj
    dsimp only [CodePoint] at *
    omega

/-- The later intervals have the members behind the first one. -/
theorem Canonical.covered_tail_iff (h : Canonical (i :: rest)) :
    Covered rest c ↔ Covered (i :: rest) c ∧ i.hi < c := by
  obtain ⟨-, happart, -⟩ := canonical_cons.mp h
  rw [covered_cons]
  constructor
  · intro hcovered
    have ⟨j, hj, hlo, _⟩ := hcovered
    have hlt := happart j hj
    refine ⟨.inr hcovered, ?_⟩
    dsimp only [CodePoint] at *
    omega
  · rintro ⟨hfirst | hrest, hlt⟩
    · dsimp only [CodePoint] at *
      omega
    · exact hrest

/-- An interval of members that begins with the first one does not reach
    behind it. -/
theorem Canonical.hi_le {j : Interval} (h : Canonical (i :: rest)) (hlo : j.lo = i.lo)
    (hmembers : ∀ c, j.lo ≤ c → c ≤ j.hi → Covered (i :: rest) c) : j.hi ≤ i.hi := by
  obtain ⟨hordered, -, -⟩ := canonical_cons.mp h
  by_contra hlt
  refine h.not_covered_succ (hmembers (i.hi + 1) ?_ ?_)
  · dsimp only [CodePoint] at *
    omega
  · exact Nat.lt_of_not_le hlt

/-- Intervals in canonical form are determined by their members. -/
theorem Canonical.ext (has : Canonical as) (hbs : Canonical bs)
    (hsame : ∀ c, Covered as c ↔ Covered bs c) : as = bs := by
  induction as generalizing bs with
  | nil =>
    cases bs with
    | nil => rfl
    | cons j others =>
      obtain ⟨hordered, -, -⟩ := canonical_cons.mp hbs
      have hnone := (hsame j.lo).mpr (covered_cons.mpr (.inl ⟨Nat.le_refl _, hordered⟩))
      obtain ⟨k, hk, -⟩ := hnone
      exact absurd hk List.not_mem_nil
  | cons i rest ih =>
    obtain ⟨hi, -, hrest⟩ := canonical_cons.mp has
    have hfirst : Covered (i :: rest) i.lo := covered_cons.mpr (.inl ⟨Nat.le_refl _, hi⟩)
    cases bs with
    | nil =>
      obtain ⟨k, hk, -⟩ := (hsame i.lo).mp hfirst
      exact absurd hk List.not_mem_nil
    | cons j others =>
      obtain ⟨hj, -, hothers⟩ := canonical_cons.mp hbs
      have hfirst' : Covered (j :: others) j.lo := covered_cons.mpr (.inl ⟨Nat.le_refl _, hj⟩)
      -- both begin with the least member
      have hlo : i.lo = j.lo := Nat.le_antisymm
        (le_of_covered has.ascending ((hsame j.lo).mpr hfirst'))
        (le_of_covered hbs.ascending ((hsame i.lo).mp hfirst))
      have hhi : i.hi = j.hi := Nat.le_antisymm
        (hbs.hi_le hlo fun c hle hge => (hsame c).mp (covered_cons.mpr (.inl ⟨hle, hge⟩)))
        (has.hi_le hlo.symm fun c hle hge => (hsame c).mpr (covered_cons.mpr (.inl ⟨hle, hge⟩)))
      have heq : i = j := by
        cases i
        cases j
        exact congrArg₂ Interval.mk hlo hhi
      have htail : rest = others := by
        refine ih hrest hothers fun c => ?_
        rw [has.covered_tail_iff, hbs.covered_tail_iff, hsame c, hhi]
      rw [heq, htail]

end Extensionality

namespace CharSet

variable {a b : CharSet} {c : CodePoint}

/-! ## Section 2: Sets of code points -/

/-- A set in canonical form, of code points only. -/
structure IsProper (a : CharSet) : Prop where
  canonical : a.IsCanonical
  bounded : ∀ i ∈ a.intervals, i.hi ≤ maxCodePoint

/-- The set is the one in canonical form that has the code points with a
    property. -/
structure Represents (a : CharSet) (P : CodePoint → Prop) : Prop where
  proper : a.IsProper
  members : ∀ c ≤ maxCodePoint, a.contains c = true ↔ P c
  unique : ∀ b : CharSet, b.IsProper → (∀ c ≤ maxCodePoint, b.contains c = true ↔ P c) → b = a

theorem IsProper.le_of_contains (h : a.IsProper) (hc : a.contains c = true) :
    c ≤ maxCodePoint := by
  obtain ⟨i, hi, -, hle⟩ := contains_iff.mp hc
  exact Nat.le_trans hle (h.bounded i hi)

/-- A set in canonical form is proper if all its members are code points. -/
theorem isProper_of_contains (h : a.IsCanonical)
    (hbounded : ∀ c, a.contains c = true → c ≤ maxCodePoint) : a.IsProper where
  canonical := h
  bounded i hi := hbounded i.hi (contains_iff.mpr ⟨i, hi, h.ordered i hi, Nat.le_refl _⟩)

theorem IsProper.ext (ha : a.IsProper) (hb : b.IsProper)
    (hsame : ∀ c ≤ maxCodePoint, a.contains c = true ↔ b.contains c = true) : a = b := by
  obtain ⟨as⟩ := a
  obtain ⟨bs⟩ := b
  refine congrArg CharSet.mk (Canonical.ext ha.canonical hb.canonical fun c => ?_)
  show (∃ i ∈ as, i.lo ≤ c ∧ c ≤ i.hi) ↔ ∃ i ∈ bs, i.lo ≤ c ∧ c ≤ i.hi
  rw [← contains_iff (a := ⟨as⟩), ← contains_iff (a := ⟨bs⟩)]
  exact ⟨fun hc => (hsame c (ha.le_of_contains hc)).mp hc,
    fun hc => (hsame c (hb.le_of_contains hc)).mpr hc⟩

/-- The members say which proper set it is. -/
theorem IsProper.represents {P : CodePoint → Prop} (h : a.IsProper)
    (hmembers : ∀ c ≤ maxCodePoint, a.contains c = true ↔ P c) : a.Represents P where
  proper := h
  members := hmembers
  unique _ hb hb' := hb.ext h fun c hc => (hb' c hc).trans (hmembers c hc).symm

theorem IsProper.eq_iff (ha : a.IsProper) (hb : b.IsProper) :
    a = b ↔ ∀ c ≤ maxCodePoint, a.contains c = true ↔ b.contains c = true :=
  ⟨fun heq _ _ => heq ▸ Iff.rfl, ha.ext hb⟩

/-! ## Section 3: Operations -/

theorem represents_ofIntervals {pairs : List Interval}
    (h : ∀ i ∈ pairs, i.lo ≤ maxCodePoint ∧ i.hi ≤ maxCodePoint) :
    (ofIntervals pairs).Represents fun c => ∃ i ∈ pairs, i.lo ≤ c ∧ c ≤ i.hi := by
  refine IsProper.represents ?_ fun c _ => contains_ofIntervals
  refine isProper_of_contains (isCanonical_ofIntervals pairs) fun c hc => ?_
  obtain ⟨i, hi, -, hle⟩ := contains_ofIntervals.mp hc
  exact Nat.le_trans hle (h i hi).2

theorem represents_unionAll {sets : List CharSet} (h : ∀ a ∈ sets, a.IsProper) :
    (unionAll sets).Represents fun c => ∃ a ∈ sets, a.contains c = true := by
  refine IsProper.represents ?_ fun c _ => contains_unionAll
  refine isProper_of_contains (isCanonical_unionAll sets) fun c hc => ?_
  obtain ⟨a, ha, hmem⟩ := contains_unionAll.mp hc
  exact (h a ha).le_of_contains hmem

theorem represents_union (ha : a.IsProper) (hb : b.IsProper) :
    (a ∪ b).Represents fun c => a.contains c = true ∨ b.contains c = true := by
  refine IsProper.represents ?_ fun c _ => contains_union
  refine isProper_of_contains (isCanonical_union a b) fun c hc => ?_
  exact (contains_union.mp hc).elim ha.le_of_contains hb.le_of_contains

/-- No gap reaches behind the last code point. -/
theorem hi_le_of_mem_gaps {intervals : List Interval} (hordered : ∀ i ∈ intervals, i.lo ≤ i.hi)
    (hbounded : ∀ i ∈ intervals, i.hi ≤ maxCodePoint) (start : CodePoint) :
    ∀ gap ∈ gaps start intervals, gap.hi ≤ maxCodePoint := by
  induction intervals generalizing start with
  | nil =>
    unfold gaps
    split
    next =>
      intro gap hgap
      obtain rfl := List.mem_singleton.mp hgap
      exact Nat.le_refl _
    next => exact List.forall_mem_nil _
  | cons i rest ih =>
    obtain ⟨hi, hordered⟩ := List.forall_mem_cons.mp hordered
    obtain ⟨hle, hbounded⟩ := List.forall_mem_cons.mp hbounded
    unfold gaps
    split
    next =>
      refine List.forall_mem_cons.mpr ⟨?_, ih hordered hbounded _⟩
      dsimp only [CodePoint] at *
      omega
    next => exact ih hordered hbounded _

theorem represents_complement (h : a.IsProper) :
    a.complement.Represents fun c => ¬ a.contains c = true :=
  IsProper.represents
    ⟨isCanonical_complement h.canonical, hi_le_of_mem_gaps h.canonical.ordered h.bounded 0⟩
    fun _ hc => contains_complement h.canonical hc

/-- The case partner of an ASCII letter is an ASCII letter. -/
theorem le_of_otherCase? {d : CodePoint} (h : otherCase? c = some d) : c ≤ maxCodePoint := by
  have hshift := otherCase?_eq_some_iff.mp h
  dsimp only [maxCodePoint, CodePoint] at *
  omega

theorem represents_withOtherCase (h : a.IsProper) :
    a.withOtherCase.Represents fun c =>
      a.contains c = true ∨ ∃ d, otherCase? c = some d ∧ a.contains d = true := by
  refine IsProper.represents ?_ fun c _ => contains_withOtherCase
  refine isProper_of_contains (isCanonical_withOtherCase h.canonical) fun c hc => ?_
  rcases contains_withOtherCase.mp hc with hmem | ⟨d, hd, -⟩
  · exact h.le_of_contains hmem
  · exact le_of_otherCase? hd

/-! ## Section 4: Laws -/

theorem complement_complement (h : a.IsProper) : a.complement.complement = a := by
  have hcomplement := represents_complement h
  refine ((represents_complement hcomplement.proper).unique a h fun c hc => ?_).symm
  rw [hcomplement.members c hc, not_not]

/-- The partner of a partner is the letter itself. -/
theorem otherCase?_symm {d : CodePoint} (h : otherCase? c = some d) : otherCase? d = some c := by
  have hshift := otherCase?_eq_some_iff.mp h
  rw [otherCase?_eq_some_iff]
  dsimp only [CodePoint] at *
  omega

theorem withOtherCase_withOtherCase (h : a.IsProper) :
    a.withOtherCase.withOtherCase = a.withOtherCase := by
  have hclosed := represents_withOtherCase h
  refine hclosed.unique _ (represents_withOtherCase hclosed.proper).proper fun c hc => ?_
  simp only [contains_withOtherCase]
  refine ⟨fun hsome => ?_, Or.inl⟩
  rcases hsome with hmem | ⟨d, hd, hmem | ⟨e, he, hmem⟩⟩
  · exact hmem
  · exact .inr ⟨d, hd, hmem⟩
  · -- two changes of case lead back
    obtain rfl : c = e := Option.some.inj ((otherCase?_symm hd).symm.trans he)
    exact .inl hmem

/-- A list of intervals has one canonical form, and the sets in this form are
    closed under union, complement and case closure, each of which has the
    members that it should have.  Such sets are equal when their members are,
    complements cancel, and closing twice is closing once. -/
theorem isProper_algebra {pairs : List Interval}
    (hpairs : ∀ i ∈ pairs, i.lo ≤ maxCodePoint ∧ i.hi ≤ maxCodePoint) {sets : List CharSet}
    (hsets : ∀ a ∈ sets, a.IsProper) (ha : a.IsProper) (hb : b.IsProper) :
    (ofIntervals pairs).Represents (fun c => ∃ i ∈ pairs, i.lo ≤ c ∧ c ≤ i.hi) ∧
    (a ∪ b).Represents (fun c => a.contains c = true ∨ b.contains c = true) ∧
    (unionAll sets).Represents (fun c => ∃ a ∈ sets, a.contains c = true) ∧
    a.complement.Represents (fun c => ¬ a.contains c = true) ∧
    a.withOtherCase.Represents
      (fun c => a.contains c = true ∨ ∃ d, otherCase? c = some d ∧ a.contains d = true) ∧
    (a = b ↔ ∀ c ≤ maxCodePoint, a.contains c = true ↔ b.contains c = true) ∧
    a.complement.complement = a ∧
    a.withOtherCase.withOtherCase = a.withOtherCase :=
  ⟨represents_ofIntervals hpairs, represents_union ha hb, represents_unionAll hsets,
    represents_complement ha, represents_withOtherCase ha, ha.eq_iff hb, complement_complement ha,
    withOtherCase_withOtherCase ha⟩

/-- Two adjacent pairs of letters and one that is empty, the lower case
    letters, and all code points. -/
theorem isProper_algebra_of_letters :
    let pairs : List Interval := [⟨0x6E, 0x7A⟩, ⟨0x61, 0x6D⟩, ⟨5, 3⟩]
    let letters : CharSet := ⟨[⟨0x61, 0x7A⟩]⟩
    (∀ i ∈ pairs, i.lo ≤ maxCodePoint ∧ i.hi ≤ maxCodePoint) ∧ letters.IsProper ∧
    everything.IsProper ∧
    (ofIntervals pairs).Represents (fun c => ∃ i ∈ pairs, i.lo ≤ c ∧ c ≤ i.hi) ∧
    (letters ∪ everything).Represents
      (fun c => letters.contains c = true ∨ everything.contains c = true) ∧
    letters.complement.Represents (fun c => ¬ letters.contains c = true) ∧
    letters.complement.complement = letters ∧
    letters.withOtherCase.withOtherCase = letters.withOtherCase := by
  intro pairs letters
  have hpairs : ∀ i ∈ pairs, i.lo ≤ maxCodePoint ∧ i.hi ≤ maxCodePoint := by decide
  have hletters : letters.IsProper := ⟨⟨by decide, by decide⟩, by decide⟩
  have heverything : everything.IsProper := ⟨⟨by decide, by decide⟩, by decide⟩
  have hsets : ∀ a ∈ [letters, everything], a.IsProper :=
    List.forall_mem_cons.mpr ⟨hletters, List.forall_mem_singleton.mpr heverything⟩
  obtain ⟨hform, hunion, -, hcomplement, -, -, htwice, hclosed⟩ :=
    isProper_algebra hpairs hsets hletters heverything
  exact ⟨hpairs, hletters, heverything, hform, hunion, hcomplement, htwice, hclosed⟩

end CharSet

end RegexInsight
